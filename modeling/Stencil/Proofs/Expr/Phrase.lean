import Stencil.Proofs.Expr.Spelling

/-!
# Expressions as they are written

An expression can be written in many ways: with the one or the other spelling of an operator, with
parentheses that precedence asks for and with parentheses that it does not, with or without a comma
behind the last item of a list.  A phrase is an expression together with one way of writing it.

## Main Definitions

* `Phrase` — an expression as it is written
* `Phrase.expr`, `Phrase.tokens` — the expression, and the tokens that it is written with
* `Phrase.Spelled` — every token stands for what the phrase takes it for
* `Phrase.Grouped` — the parentheses that precedence asks for are there
* `Phrase.deepest` — the depth of the deepest place of a phrase

## Design Notes

**Tightness.**  An operator holds its operands more or less tightly, and what stands next to it
without parentheses has to be as tight.  The numbers are those of `BinaryOp.tightness`, with two for
`not`, six for the unary minus, eight for the parts of a value and nine for whatever has an end of
its own.  Comparisons group to the left like sums and products: a phrase may leave out parentheses
that the grammar wants there.

**Depth.**  A place is one deeper for each pair of parentheses or brackets around it, for each
`not`, unary minus or `**` whose operand it stands in, on the right in the case of `**`, and for
each operator in front of it in a chain of operators that it is an operand of.
-/

namespace Stencil

/-- An expression as it is written. -/
inductive Phrase
  /-- A literal and its token. -/
  | literal (token : Token) (v : Value)
  /-- A key path: its first name, and the pieces behind it with their tokens. -/
  | path (head : Text) (pieces : List (Token × Text))
  /-- A part of a value by its name. -/
  | attr (object : Phrase) (token : Token) (name : Text)
  /-- A part of a value by a subscript. -/
  | item (object key : Phrase)
  /-- The opposite truth. -/
  | not (token : Token) (operand : Phrase)
  /-- The number of the other sign. -/
  | neg (operand : Phrase)
  /-- An operator between two operands. -/
  | binary (token : Token) (op : BinaryOp) (left right : Phrase)
  /-- A list, perhaps with a comma behind its last item. -/
  | list (items : List Phrase) (trailing : Bool)
  /-- An expression in parentheses. -/
  | parens (inner : Phrase)

namespace Phrase

/-! ## What is written, and with which tokens -/

/-- The text of the pieces of a key path, each behind a dot. -/
def pieceText (pieces : List (Token × Text)) : Text :=
  pieces.flatMap fun piece => '.' :: piece.2

/-- The tokens of the pieces of a key path, each behind a dot. -/
def pieceTokens (pieces : List (Token × Text)) : List Token :=
  pieces.flatMap fun piece => [.symbol .dot, piece.1]

/-- What stands between an item and the remaining ones: a comma, which may be missing behind the
last item. -/
def separator (trailing : Bool) : List Phrase → List Token
  | [] => if trailing then [.symbol .comma] else []
  | _ :: _ => [.symbol .comma]

mutual

/-- The expression that is written. -/
def expr : Phrase → Expr
  | literal _ v => .const v
  | path head pieces => .path (head ++ pieceText pieces)
  | attr object _ name => .attr (expr object) name
  | item object key => .item (expr object) (expr key)
  | not _ operand => .not (expr operand)
  | neg operand => .neg (expr operand)
  | binary _ op left right => .binary op (expr left) (expr right)
  | list items _ => .list (exprs items)
  | parens inner => expr inner

/-- The expressions of the items of a list. -/
def exprs : List Phrase → List Expr
  | [] => []
  | p :: rest => expr p :: exprs rest

end

mutual

/-- The tokens that an expression is written with. -/
def tokens : Phrase → List Token
  | literal token _ => [token]
  | path head pieces => .name head :: pieceTokens pieces
  | attr object token _ => tokens object ++ [.symbol .dot, token]
  | item object key =>
    tokens object ++ .symbol .openBracket :: (tokens key ++ [.symbol .closeBracket])
  | not token operand => token :: tokens operand
  | neg operand => .symbol .minus :: tokens operand
  | binary token _ left right => tokens left ++ token :: tokens right
  | list items trailing =>
    .symbol .openBracket :: (itemTokens trailing items ++ [.symbol .closeBracket])
  | parens inner => .symbol .openParen :: (tokens inner ++ [.symbol .closeParen])

/-- The tokens of the items of a list. -/
def itemTokens (trailing : Bool) : List Phrase → List Token
  | [] => []
  | p :: rest => tokens p ++ (separator trailing rest ++ itemTokens trailing rest)

end

mutual

/-- Every token stands for what the phrase takes it for. -/
def Spelled : Phrase → Prop
  | literal token v => v.SpelledBy token
  | path _ pieces => ∀ piece ∈ pieces, piece.2.PieceBy piece.1
  | attr object token name => Spelled object ∧ name.PieceBy token
  | item object key => Spelled object ∧ Spelled key
  | not token operand => Parser.isNegation token = true ∧ Spelled operand
  | neg operand => Spelled operand
  | binary token op left right => op.SpelledBy token ∧ Spelled left ∧ Spelled right
  | list items _ => SpelledItems items
  | parens inner => Spelled inner

/-- Every token of the items of a list stands for what they take it for. -/
def SpelledItems : List Phrase → Prop
  | [] => True
  | p :: rest => Spelled p ∧ SpelledItems rest

end

/-! ## Tokens in front of others -/

section Append

variable {token : Token} {name : Text} {op : BinaryOp}
  {object key operand left right inner : Phrase} {items : List Phrase} {trailing : Bool}
  {rest : List Token}

theorem tokens_attr_append : (attr object token name).tokens ++ rest =
    object.tokens ++ .symbol .dot :: token :: rest := by
  rw [tokens, List.append_assoc, List.cons_append, List.singleton_append]

theorem tokens_item_append : (item object key).tokens ++ rest =
    object.tokens ++ .symbol .openBracket :: (key.tokens ++ .symbol .closeBracket :: rest) := by
  rw [tokens, List.append_assoc, List.cons_append, List.append_assoc, List.singleton_append]

theorem tokens_not_append :
    (not token operand).tokens ++ rest = token :: (operand.tokens ++ rest) := rfl

theorem tokens_neg_append :
    (neg operand).tokens ++ rest = .symbol .minus :: (operand.tokens ++ rest) := rfl

theorem tokens_binary_append : (binary token op left right).tokens ++ rest =
    left.tokens ++ token :: (right.tokens ++ rest) := by
  rw [tokens, List.append_assoc, List.cons_append]

theorem tokens_list_append : (list items trailing).tokens ++ rest =
    .symbol .openBracket :: (itemTokens trailing items ++ .symbol .closeBracket :: rest) := by
  rw [tokens, List.cons_append, List.append_assoc, List.singleton_append]

theorem tokens_parens_append : (parens inner).tokens ++ rest =
    .symbol .openParen :: (inner.tokens ++ .symbol .closeParen :: rest) := by
  rw [tokens, List.cons_append, List.append_assoc, List.singleton_append]

theorem itemTokens_cons_append : itemTokens trailing (inner :: items) ++ rest =
    inner.tokens ++ (separator trailing items ++ (itemTokens trailing items ++ rest)) := by
  rw [itemTokens, List.append_assoc, List.append_assoc]

end Append

theorem separator_cases (trailing : Bool) (items : List Phrase) :
    separator trailing items = [.symbol .comma] ∨ items = [] ∧ separator trailing items = [] := by
  cases items with
  | nil =>
    cases trailing with
    | false => exact .inr ⟨rfl, rfl⟩
    | true => exact .inl rfl
  | cons p rest => exact .inl rfl

/-! ## Precedence -/

/-- How tightly a phrase holds together. -/
def tightness : Phrase → Nat
  | literal _ _ | path _ _ | list _ _ | parens _ => 9
  | attr _ _ _ | item _ _ => 8
  | neg _ => 6
  | not _ _ => 2
  | binary _ op _ _ => op.tightness

/-- Whether a phrase is a key path without parentheses. -/
def isPath : Phrase → Bool
  | path _ _ => true
  | _ => false

mutual

/-- The parentheses that precedence asks for are there, and those around a key path that a name is
taken of; a key path starts with no word of the language. -/
def Grouped : Phrase → Prop
  | literal _ _ => True
  | path head _ => head.IsFree
  | attr object _ _ => Grouped object ∧ 8 ≤ object.tightness ∧ object.isPath = false
  | item object key => Grouped object ∧ Grouped key ∧ 8 ≤ object.tightness
  | not _ operand => Grouped operand ∧ 2 ≤ operand.tightness
  | neg operand => Grouped operand ∧ 6 ≤ operand.tightness
  | binary _ op left right =>
    Grouped left ∧ Grouped right ∧
      if op = .pow then 8 ≤ left.tightness ∧ 6 ≤ right.tightness
      else op.tightness ≤ left.tightness ∧ op.tightness < right.tightness
  | list items _ => GroupedItems items
  | parens inner => Grouped inner

/-- The parentheses that precedence asks for are there in the items of a list. -/
def GroupedItems : List Phrase → Prop
  | [] => True
  | p :: rest => Grouped p ∧ GroupedItems rest

end

/-! ## Depth -/

/-- The number of operators of a tightness in the chain that a phrase is. -/
def chained (tightness : Nat) : Phrase → Nat
  | binary _ op left _ => if op.tightness = tightness then chained tightness left + 1 else 0
  | _ => 0

/-- A phrase that is tighter than an operator is no chain of it. -/
theorem chained_eq_zero {p : Phrase} {tightness : Nat} (h : tightness < p.tightness) :
    p.chained tightness = 0 := by
  cases p with
  | binary token op left right => exact if_neg (Nat.ne_of_gt h)
  | _ => rfl

mutual

/-- The depth of the deepest place of a phrase that stands at the given depth. -/
def deepest (depth : Nat) : Phrase → Nat
  | literal _ _ | path _ _ => depth
  | attr object _ _ => deepest depth object
  | item object key => max (deepest depth object) (deepest (depth + 1) key)
  | not _ operand | neg operand => deepest (depth + 1) operand
  | binary _ op left right =>
    max (deepest depth left) (deepest (depth + left.chained op.tightness + 1) right)
  | list items _ => deepestItem depth items
  | parens inner => deepest (depth + 1) inner

/-- The depth of the deepest place in a list that stands at the given depth. -/
def deepestItem (depth : Nat) : List Phrase → Nat
  | [] => depth
  | p :: rest => max (deepest (depth + 1) p) (deepestItem depth rest)

end

mutual

/-- No place of a phrase is less deep than the phrase. -/
theorem le_deepest (depth : Nat) : (p : Phrase) → depth ≤ p.deepest depth
  | literal _ _ | path _ _ => Nat.le_refl _
  | attr object _ _ => le_deepest depth object
  | item object _ => Nat.le_trans (le_deepest depth object) (Nat.le_max_left _ _)
  | not _ operand | neg operand | parens operand =>
    Nat.le_trans (Nat.le_succ depth) (le_deepest (depth + 1) operand)
  | binary _ _ left _ => Nat.le_trans (le_deepest depth left) (Nat.le_max_left _ _)
  | list items _ => le_deepestItem depth items

theorem le_deepestItem (depth : Nat) : (items : List Phrase) → depth ≤ deepestItem depth items
  | [] => Nat.le_refl _
  | _ :: rest => Nat.le_trans (le_deepestItem depth rest) (Nat.le_max_right _ _)

end

/-- A phrase that stands one deeper is deeper than its surroundings. -/
theorem le_deepest_succ (depth : Nat) (p : Phrase) : depth ≤ p.deepest (depth + 1) :=
  Nat.le_trans (Nat.le_succ depth) (le_deepest (depth + 1) p)

/-! ## The first token -/

/-- A token is none of those that are looked for in front of what is at least as tight as a
phrase. -/
structure Starts (p : Phrase) (token : Token) : Prop where
  ne_minus : 7 ≤ p.tightness → token ≠ .symbol .minus
  not_negation : 3 ≤ p.tightness → Parser.isNegation token = false

/-- A phrase starts with what the phrase at its left end starts with. -/
theorem Starts.of_le {p left : Phrase} {token : Token} (h : left.Starts token)
    (hle : p.tightness ≤ left.tightness) : p.Starts token where
  ne_minus := fun hp => h.ne_minus (Nat.le_trans hp hle)
  not_negation := fun hp => h.not_negation (Nat.le_trans hp hle)

theorem starts_literal {token : Token} {v : Value} (h : v.SpelledBy token) :
    token ≠ .symbol .closeBracket ∧ (literal token v).Starts token := by
  rcases h.cases with ⟨x, -, rfl⟩ | ⟨s, escaped, -, rfl⟩ | ⟨text, rfl, word, hmem, hword⟩
  · exact ⟨by simp, by simp, fun _ => rfl⟩
  · exact ⟨by simp, by simp, fun _ => rfl⟩
  · have hne : ∀ word ∈ Token.literalWords,
        Text.lower word.toList ≠ Text.lower "not".toList := by decide
    have hnot := Token.not_isWord hword (hne word hmem)
    exact ⟨by simp, by simp, by simp [Parser.isNegation, hnot]⟩

/-- The left side of an operator is as tight as the operator. -/
theorem tightness_le_of_grouped {token : Token} {op : BinaryOp} {left right : Phrase}
    (h : (binary token op left right).Grouped) : op.tightness ≤ left.tightness := by
  obtain ⟨-, -, h⟩ := h
  split_ifs at h with hpow
  · subst hpow
    exact Nat.le_trans (by decide) h.1
  · exact h.1

/-- Every phrase has a first token, which ends no list. -/
theorem exists_first : (p : Phrase) → p.Spelled → ∃ token rest, p.tokens = token :: rest ∧
    token ≠ .symbol .closeBracket ∧ (p.Grouped → p.Starts token)
  | literal token v, hspelled => by
    obtain ⟨hne, hstarts⟩ := starts_literal hspelled
    exact ⟨token, [], rfl, hne, fun _ => hstarts⟩
  | path head pieces, _ =>
    ⟨_, _, rfl, by simp, fun hfree => ⟨by simp, fun _ => Parser.isNegation_of_isFree hfree⟩⟩
  | attr object token name, hspelled => by
    obtain ⟨first, rest, htokens, hne, hstarts⟩ := exists_first object hspelled.1
    exact ⟨first, _, by rw [tokens, htokens, List.cons_append], hne,
      fun hgrouped => (hstarts hgrouped.1).of_le hgrouped.2.1⟩
  | item object key, hspelled => by
    obtain ⟨first, rest, htokens, hne, hstarts⟩ := exists_first object hspelled.1
    exact ⟨first, _, by rw [tokens, htokens, List.cons_append], hne,
      fun hgrouped => (hstarts hgrouped.1).of_le hgrouped.2.2⟩
  | not token operand, hspelled => by
    refine ⟨token, _, rfl, ?_, fun _ => ⟨by simp [tightness], by simp [tightness]⟩⟩
    rintro rfl
    exact absurd hspelled.1 (by decide)
  | neg operand, _ => ⟨_, _, rfl, by simp, fun _ => ⟨by simp [tightness], fun _ => rfl⟩⟩
  | binary token op left right, hspelled => by
    obtain ⟨first, rest, htokens, hne, hstarts⟩ := exists_first left hspelled.2.1
    exact ⟨first, _, by rw [tokens, htokens, List.cons_append], hne,
      fun hgrouped => (hstarts hgrouped.1).of_le (tightness_le_of_grouped hgrouped)⟩
  | list items trailing, _ => ⟨_, _, rfl, by simp, fun _ => ⟨by simp, fun _ => rfl⟩⟩
  | parens inner, _ => ⟨_, _, rfl, by simp, fun _ => ⟨by simp, fun _ => rfl⟩⟩

end Phrase

end Stencil
