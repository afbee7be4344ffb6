import Stencil.Expr.Basic
import Stencil.Expr.Lexer

/-!
# Reading expressions

A recursive descent over the tokens of an expression.  Its levels, from loose to tight, are `or`,
`and`, `not`, the comparisons, sums, products, the unary minus, powers, and the parts of a value.

## Main Definitions

* `Level` — the levels of operators that group to the left, with the operators of each
* `Parser.expression`, `Parser.chain`, … — one function for each rule of the grammar
* `Expr.ofTokens` — the expression of a list of tokens
* `Expr.ofText` — the expression that a text stands for

## Design Notes

**Depth.**  Every rule is told how deep it stands.  A subexpression, the operand of `not` or of a
minus, the right side of a power, and every operator of a chain stand one deeper than what they
belong to; beyond a depth of fifty the text is refused.

**Faults.**  The tokens may end in a fault of the reading below.  A rule sees one token ahead, so
the fault comes to light when the last token before it is taken.

**Termination.**  Each rule returns the tokens it leaves with the proof that they are fewer.
-/

namespace Stencil

/-- The levels of operators that group to the left, from loose to tight. -/
inductive Level
  | disjunction
  | conjunction
  | comparison
  | sum
  | product
deriving DecidableEq, Repr

namespace Level

/-- The operator of a level that a token is, if it is one. -/
def operator? (level : Level) (token : Token) : Option BinaryOp :=
  match level with
  | disjunction =>
    if token = .symbol .either ∨ token.isWord "or" then some .or else none
  | conjunction =>
    if token = .symbol .both ∨ token.isWord "and" then some .and else none
  | comparison =>
    match token with
    | .symbol .equal => some .eq
    | .symbol .notEqual => some .ne
    | .symbol .less => some .lt
    | .symbol .lessEqual => some .le
    | .symbol .greater => some .gt
    | .symbol .greaterEqual => some .ge
    | token =>
      if token.isWord "in" then some .isIn
      else if token.isWord "contains" then some .contains
      else if token.isWord "beginswith" then some .beginsWith
      else if token.isWord "endswith" then some .endsWith
      else none
  | sum =>
    match token with
    | .symbol .plus => some .add
    | .symbol .minus => some .sub
    | _ => none
  | product =>
    match token with
    | .symbol .times => some .mul
    | .symbol .divide => some .div
    | _ => none

/-- The place of a level among the rules that may follow one another without taking a token. -/
def rank : Level → Nat
  | disjunction => 13
  | conjunction => 11
  | comparison => 8
  | sum => 6
  | product => 4

end Level

namespace Parser

/-- The greatest depth of an expression. -/
def depthLimit : Nat := 50

/-- Tokens that are left, fewer than there were. -/
abbrev Fewer (tokens : List Token) := { rest : List Token // rest.length < tokens.length }

/-- Tokens that are left, at most as many as there were. -/
abbrev Left (tokens : List Token) := { rest : List Token // rest.length ≤ tokens.length }

/-- What a rule has read, and the fewer tokens it leaves. -/
abbrev Step (α : Type) (tokens : List Token) := Except SyntaxError (α × Fewer tokens)

/-- Taking a token brings up the next one; if there is none and the reading of tokens ended in a
fault, the fault comes to light. -/
def take (fault : Option SyntaxError) (rest : List Token) : Except SyntaxError Unit :=
  match rest, fault with
  | [], some e => .error e
  | _, _ => .ok ()

/-- Refuses a place that is too deep. -/
def guardDepth (depth : Nat) : Except SyntaxError Unit :=
  if depth ≤ depthLimit then .ok () else .error .tooDeep

/-- Takes the next token, which must be the given symbol. -/
def expect (fault : Option SyntaxError) (s : Symbol) (expected : Expectation) :
    (tokens : List Token) → Step Unit tokens
  | [] => .error (.unexpected none expected)
  | token :: rest => do
    take fault rest
    if token = .symbol s then .ok ((), ⟨rest, Nat.lt_succ_self _⟩)
    else .error (.unexpected (some token) expected)

/-- The piece of a key path that a token stands for: a name, or an integer by its digits. -/
def pieceOf? : Token → Option Text
  | .name text => some text
  | .number x =>
    match x.whole? with
    | some (.ofNat n) => some (Nat.toDigits 10 (min n (Nat.pow 2 64 - 1)))
    | _ => none
  | _ => none

/-- The piece of a key path after a dot. -/
def piece (fault : Option SyntaxError) : (tokens : List Token) → Step Text tokens
  | [] => .error (.unexpected none .attributeName)
  | token :: rest => do
    take fault rest
    match pieceOf? token with
    | some text => .ok (text, ⟨rest, Nat.lt_succ_self _⟩)
    | none => .error (.unexpected (some token) .attributeName)

/-- The pieces that continue a key path, each after a dot. -/
def pathTail (fault : Option SyntaxError) (tokens : List Token) :
    Except SyntaxError (Text × Left tokens) :=
  match tokens with
  | .symbol .dot :: rest => do
    take fault rest
    let (text, ⟨rest₁, h₁⟩) ← piece fault rest
    let (tail, ⟨rest₂, h₂⟩) ← pathTail fault rest₁
    .ok ('.' :: (text ++ tail), ⟨rest₂, by simp only [List.length_cons]; omega⟩)
  | tokens => .ok ([], ⟨tokens, Nat.le_refl _⟩)
termination_by tokens.length
decreasing_by simp only [List.length_cons]; omega

/-- The constant that a word of the language stands for. -/
def constantOf? (word : Text) : Option Value :=
  let word := Text.lower word
  if word = "true".toList ∨ word = "yes".toList then some (.bool true)
  else if word = "false".toList ∨ word = "no".toList then some (.bool false)
  else if word = "nil".toList ∨ word = "null".toList then some .null
  else none

/-- Whether a token negates what follows it. -/
def isNegation (token : Token) : Bool := token = .symbol .bang || token.isWord "not"

mutual

/-- A subexpression, one deeper than its surroundings. -/
def expression (fault : Option SyntaxError) (depth : Nat) (tokens : List Token) :
    Step Expr tokens := do
  guardDepth (depth + 1)
  chain fault .disjunction (depth + 1) tokens
termination_by (tokens.length, 15)
decreasing_by exact Prod.Lex.right _ (by decide)

/-- Operands of one level with its operators between them. -/
def chain (fault : Option SyntaxError) (level : Level) (depth : Nat) (tokens : List Token) :
    Step Expr tokens := do
  let (left, ⟨rest, h⟩) ← operand fault level depth tokens
  let (e, ⟨rest, h'⟩) ← chainTail fault level depth left rest
  .ok (e, ⟨rest, by omega⟩)
termination_by (tokens.length, level.rank + 1)

/-- The operators that continue a chain, each with its right operand and one deeper than the one
before it. -/
def chainTail (fault : Option SyntaxError) (level : Level) (depth : Nat) (left : Expr)
    (tokens : List Token) : Except SyntaxError (Expr × Left tokens) :=
  match tokens with
  | [] => .ok (left, ⟨[], Nat.le_refl _⟩)
  | token :: rest =>
    match level.operator? token with
    | none => .ok (left, ⟨token :: rest, Nat.le_refl _⟩)
    | some op => do
      -- The depth is looked at before the operator is taken.
      guardDepth (depth + 1)
      take fault rest
      let (right, ⟨rest₁, h₁⟩) ← operand fault level (depth + 1) rest
      let (e, ⟨rest₂, h₂⟩) ← chainTail fault level (depth + 1) (.binary op left right) rest₁
      .ok (e, ⟨rest₂, by simp only [List.length_cons]; omega⟩)
termination_by (tokens.length, 0)

/-- An operand of a level: what the next tighter rule reads. -/
def operand (fault : Option SyntaxError) (level : Level) (depth : Nat) (tokens : List Token) :
    Step Expr tokens :=
  match level with
  | .disjunction => chain fault .conjunction depth tokens
  | .conjunction => negation fault depth tokens
  | .comparison => chain fault .sum depth tokens
  | .sum => chain fault .product depth tokens
  | .product => unary fault depth tokens
termination_by (tokens.length, level.rank)
decreasing_by all_goals exact Prod.Lex.right _ (by decide)

/-- A comparison, or the opposite of what a negation is followed by. -/
def negation (fault : Option SyntaxError) (depth : Nat) (tokens : List Token) : Step Expr tokens :=
  match tokens with
  | token :: rest =>
    if isNegation token then do
      -- Here the depth is looked at after the word.
      take fault rest
      guardDepth (depth + 1)
      let (e, ⟨rest, h⟩) ← negation fault (depth + 1) rest
      .ok (.not e, ⟨rest, by simp only [List.length_cons]; omega⟩)
    else chain fault .comparison depth (token :: rest)
  | [] => chain fault .comparison depth []
termination_by (tokens.length, 10)
decreasing_by
  · exact Prod.Lex.left _ _ (Nat.lt_succ_self _)
  · exact Prod.Lex.right _ (by decide)
  · exact Prod.Lex.right _ (by decide)

/-- A power, or the negative of what a minus is followed by. -/
def unary (fault : Option SyntaxError) (depth : Nat) (tokens : List Token) : Step Expr tokens :=
  match tokens with
  | .symbol .minus :: rest => do
    take fault rest
    guardDepth (depth + 1)
    let (e, ⟨rest, h⟩) ← unary fault (depth + 1) rest
    .ok (.neg e, ⟨rest, by simp only [List.length_cons]; omega⟩)
  | tokens => power fault depth tokens
termination_by (tokens.length, 3)

/-- A part of a value, perhaps raised to a power; the right side may start with a minus. -/
def power (fault : Option SyntaxError) (depth : Nat) (tokens : List Token) : Step Expr tokens := do
  let (base, ⟨rest, h⟩) ← parts fault depth tokens
  match rest, h with
  | .symbol .power :: rest₁, h => do
    have h₁ : rest₁.length < tokens.length := Nat.lt_of_succ_lt h
    take fault rest₁
    guardDepth (depth + 1)
    let (exponent, ⟨rest₂, h₂⟩) ← unary fault (depth + 1) rest₁
    .ok (.binary .pow base exponent, ⟨rest₂, by omega⟩)
  | rest, h => .ok (base, ⟨rest, h⟩)
termination_by (tokens.length, 2)

/-- A value with the subscripts and names that lead to a part of it. -/
def parts (fault : Option SyntaxError) (depth : Nat) (tokens : List Token) : Step Expr tokens := do
  let (e, ⟨rest, h⟩) ← primary fault depth tokens
  let (e, ⟨rest, h'⟩) ← partsTail fault depth e rest
  .ok (e, ⟨rest, by omega⟩)
termination_by (tokens.length, 1)

/-- The subscripts and names that follow a value. -/
def partsTail (fault : Option SyntaxError) (depth : Nat) (object : Expr) (tokens : List Token) :
    Except SyntaxError (Expr × Left tokens) :=
  match tokens with
  | .symbol .openBracket :: rest => do
    take fault rest
    let (key, ⟨rest₁, h₁⟩) ← expression fault depth rest
    let (_, ⟨rest₂, h₂⟩) ← expect fault .closeBracket .closeBracket rest₁
    let (e, ⟨rest₃, h₃⟩) ← partsTail fault depth (.item object key) rest₂
    .ok (e, ⟨rest₃, by simp only [List.length_cons]; omega⟩)
  | .symbol .dot :: rest => do
    take fault rest
    let (name, ⟨rest₁, h₁⟩) ← piece fault rest
    let (e, ⟨rest₂, h₂⟩) ← partsTail fault depth (.attr object name) rest₁
    .ok (e, ⟨rest₂, by simp only [List.length_cons]; omega⟩)
  | tokens => .ok (object, ⟨tokens, Nat.le_refl _⟩)
termination_by (tokens.length, 0)

/-- A literal, a key path, or an expression in parentheses. -/
def primary (fault : Option SyntaxError) (depth : Nat) (tokens : List Token) : Step Expr tokens :=
  match tokens with
  | [] => .error (.unexpected none .expression)
  | token :: rest => do
    take fault rest
    match token with
    | .number x => .ok (.const (.number x), ⟨rest, Nat.lt_succ_self _⟩)
    | .string content _ => .ok (.const (.string content), ⟨rest, Nat.lt_succ_self _⟩)
    | .name word =>
      match constantOf? word with
      | some v => .ok (.const v, ⟨rest, Nat.lt_succ_self _⟩)
      | none => do
        let (tail, ⟨rest, h⟩) ← pathTail fault rest
        .ok (.path (word ++ tail), ⟨rest, by simp only [List.length_cons]; omega⟩)
    | .symbol .openParen => do
      let (e, ⟨rest₁, h₁⟩) ← expression fault depth rest
      let (_, ⟨rest₂, h₂⟩) ← expect fault .closeParen .closeParen rest₁
      .ok (e, ⟨rest₂, by simp only [List.length_cons]; omega⟩)
    | .symbol .openBracket => do
      let (items, ⟨rest, h⟩) ← items fault depth rest
      .ok (.list items, ⟨rest, by simp only [List.length_cons]; omega⟩)
    | token => .error (.unexpected (some token) .expression)
termination_by (tokens.length, 0)

/-- The items of a list up to its closing bracket, which a comma may precede. -/
def items (fault : Option SyntaxError) (depth : Nat) (tokens : List Token) :
    Step (List Expr) tokens :=
  match tokens with
  | .symbol .closeBracket :: rest => do
    take fault rest
    .ok ([], ⟨rest, Nat.lt_succ_self _⟩)
  | tokens => do
    let (item, ⟨rest, h⟩) ← expression fault depth tokens
    match rest, h with
    | .symbol .closeBracket :: rest₁, h => do
      take fault rest₁
      .ok ([item], ⟨rest₁, Nat.lt_of_succ_lt h⟩)
    | rest, h => do
      let (_, ⟨rest₁, h₁⟩) ← expect fault .comma .comma rest
      let (more, ⟨rest₂, h₂⟩) ← items fault depth rest₁
      .ok (item :: more, ⟨rest₂, by omega⟩)
termination_by (tokens.length, 16)

end

end Parser

namespace Expr

/-- The expression of a list of tokens, which may end in a fault. -/
def ofTokens (tokens : List Token) (fault : Option SyntaxError) : Except SyntaxError Expr := do
  Parser.take fault tokens
  let (e, ⟨rest, _⟩) ← Parser.expression fault 0 tokens
  match rest with
  | [] => .ok e
  | token :: rest => do
    Parser.take fault rest
    .error (.unexpected (some token) .endOfExpression)

/-- The expression that a text stands for. -/
def ofText (t : Text) : Except SyntaxError Expr :=
  let (tokens, fault) := Token.readAll t
  ofTokens tokens fault

end Expr

end Stencil
