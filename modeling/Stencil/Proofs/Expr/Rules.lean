import Mathlib.Tactic.Common
import Stencil.Expr.Parser

/-!
# The rules of the grammar as equations

A rule of the expression grammar returns the tokens it leaves together with the proof that they are
fewer, and the proof is in the way of every statement about the tokens themselves.  `Parser.outcome`
drops it.  The lemmas below say what each rule comes to without it, one equation for each rule and
each case of its first token; nothing else in the theory of the grammar opens a rule.
-/

namespace Stencil.Parser

variable {α β : Type}

/-- What a rule has read and the tokens it leaves, without the proof that they are fewer. -/
def outcome {P : List Token → Prop}
    (x : Except SyntaxError (α × { rest : List Token // P rest })) :
    Except SyntaxError (α × List Token) :=
  x.map fun (a, rest) => (a, rest.1)

section Outcome

variable {P Q : List Token → Prop}

/-- A step that goes on with what another has read and left. -/
theorem outcome_bind {x : Except SyntaxError (α × { rest : List Token // P rest })}
    {f : α × { rest : List Token // P rest } →
      Except SyntaxError (β × { rest : List Token // Q rest })}
    {g : α × List Token → Except SyntaxError (β × List Token)}
    (h : ∀ a rest, outcome (f (a, rest)) = g (a, rest.1)) :
    outcome (x >>= f) = outcome x >>= g := by
  cases x with
  | error e => rfl
  | ok r => exact h r.1 r.2

/-- A step after which only the proof is made anew. -/
theorem outcome_bind_ok {x : Except SyntaxError (α × { rest : List Token // P rest })}
    {f : α × { rest : List Token // P rest } →
      Except SyntaxError (α × { rest : List Token // Q rest })}
    (h : ∀ a rest, outcome (f (a, rest)) = .ok (a, rest.1)) :
    outcome (x >>= f) = outcome x := by
  cases x with
  | error e => rfl
  | ok r => exact h r.1 r.2

/-- A step behind a check. -/
theorem outcome_check {x : Except SyntaxError Unit}
    {f : Unit → Except SyntaxError (β × { rest : List Token // Q rest })}
    {g : Except SyntaxError (β × List Token)} (h : outcome (f ()) = g) :
    outcome (x >>= f) = x >>= fun _ => g := by
  cases x with
  | error e => rfl
  | ok u => exact h

/-- A rule that has read something leaves fewer tokens. -/
theorem property_of_outcome {x : Except SyntaxError (α × { rest : List Token // P rest })} {a : α}
    {rest : List Token} (h : outcome x = .ok (a, rest)) : P rest := by
  cases x with
  | error e => cases h
  | ok r =>
    obtain ⟨-, rfl⟩ := Prod.mk.inj (Except.ok.inj h)
    exact r.2.2

end Outcome

/-- A step that has come to an end has gone through all that it is made of. -/
theorem bind_eq_ok_iff {x : Except SyntaxError α} {f : α → Except SyntaxError β} {b : β} :
    x >>= f = .ok b ↔ ∃ a, x = .ok a ∧ f a = .ok b := by
  cases x with
  | error e => exact ⟨nofun, nofun⟩
  | ok a => exact ⟨fun h => ⟨a, rfl, h⟩, fun ⟨_, ha, h⟩ => Except.ok.inj ha ▸ h⟩

/-- A fault behind the tokens keeps the last of them from being taken. -/
theorem fault_eq_none_of_take {fault : Option SyntaxError} {rest : List Token} {u : Unit}
    (h : take fault rest = .ok u) : rest = [] → fault = none := by
  rintro rfl
  cases fault with
  | none => rfl
  | some e => cases h

variable {fault : Option SyntaxError} {depth : Nat} {level : Level} {token : Token}
  {tokens rest : List Token}

/-! ## The whole text -/

/-- An expression, and nothing behind it. -/
theorem ofTokens_eq :
    Expr.ofTokens tokens fault = (do
      take fault tokens
      let (e, rest) ← outcome (expression fault 0 tokens)
      match rest with
      | [] => .ok e
      | token :: rest => do
        take fault rest
        .error (.unexpected (some token) .endOfExpression)) := by
  unfold Expr.ofTokens
  cases take fault tokens with
  | error e => rfl
  | ok u =>
    cases expression fault 0 tokens with
    | error e => rfl
    | ok r => rfl

/-! ## Chains -/

theorem outcome_expression :
    outcome (expression fault depth tokens) = (do
      guardDepth (depth + 1)
      outcome (chain fault .disjunction (depth + 1) tokens)) := by
  rw [expression]
  exact outcome_check rfl

theorem outcome_chain :
    outcome (chain fault level depth tokens) = (do
      let (left, rest) ← outcome (operand fault level depth tokens)
      outcome (chainTail fault level depth left rest)) := by
  rw [chain]
  refine outcome_bind fun left rest => ?_
  exact outcome_bind_ok fun _ _ => rfl

theorem outcome_chainTail_nil {left : Expr} :
    outcome (chainTail fault level depth left []) = .ok (left, []) := by
  rw [chainTail]
  rfl

theorem outcome_chainTail_of_none {left : Expr} (h : level.operator? token = none) :
    outcome (chainTail fault level depth left (token :: tokens)) =
      .ok (left, token :: tokens) := by
  rw [chainTail]
  simp only [h]
  rfl

theorem outcome_chainTail_of_some {left : Expr} {op : BinaryOp}
    (h : level.operator? token = some op) :
    outcome (chainTail fault level depth left (token :: tokens)) = (do
      guardDepth (depth + 1)
      take fault tokens
      let (right, rest) ← outcome (operand fault level (depth + 1) tokens)
      outcome (chainTail fault level (depth + 1) (.binary op left right) rest)) := by
  rw [chainTail]
  simp only [h]
  refine outcome_check (outcome_check (outcome_bind fun right rest => ?_))
  exact outcome_bind_ok fun _ _ => rfl

/-! ## Operands -/

theorem operand_disjunction :
    operand fault .disjunction depth tokens = chain fault .conjunction depth tokens := by
  rw [operand]

theorem operand_conjunction :
    operand fault .conjunction depth tokens = negation fault depth tokens := by
  rw [operand]

theorem operand_comparison :
    operand fault .comparison depth tokens = chain fault .sum depth tokens := by
  rw [operand]

theorem operand_sum : operand fault .sum depth tokens = chain fault .product depth tokens := by
  rw [operand]

theorem operand_product : operand fault .product depth tokens = unary fault depth tokens := by
  rw [operand]

theorem outcome_negation (h : isNegation token = true) :
    outcome (negation fault depth (token :: tokens)) = (do
      take fault tokens
      guardDepth (depth + 1)
      let (e, rest) ← outcome (negation fault (depth + 1) tokens)
      .ok (.not e, rest)) := by
  rw [negation, if_pos h]
  exact outcome_check (outcome_check (outcome_bind fun _ _ => rfl))

theorem negation_of_not (h : ∀ token ∈ tokens.head?, isNegation token = false) :
    negation fault depth tokens = chain fault .comparison depth tokens := by
  cases tokens with
  | nil => rw [negation]
  | cons token rest =>
    have hnot : isNegation token = false := h token rfl
    rw [negation, hnot]
    rfl

theorem outcome_unary :
    outcome (unary fault depth (.symbol .minus :: tokens)) = (do
      take fault tokens
      guardDepth (depth + 1)
      let (e, rest) ← outcome (unary fault (depth + 1) tokens)
      .ok (.neg e, rest)) := by
  rw [unary]
  exact outcome_check (outcome_check (outcome_bind fun _ _ => rfl))

theorem unary_of_ne (h : tokens.head? ≠ some (.symbol .minus)) :
    unary fault depth tokens = power fault depth tokens := by
  rw [unary]
  rintro rest rfl
  exact h rfl

/-- What may follow the base of a power: the sign and the exponent. -/
def powerTail (fault : Option SyntaxError) (depth : Nat) (base : Expr) :
    List Token → Except SyntaxError (Expr × List Token)
  | .symbol .power :: tokens => do
    take fault tokens
    guardDepth (depth + 1)
    let (exponent, rest) ← outcome (unary fault (depth + 1) tokens)
    .ok (.binary .pow base exponent, rest)
  | tokens => .ok (base, tokens)

theorem outcome_power :
    outcome (power fault depth tokens) = (do
      let (base, rest) ← outcome (parts fault depth tokens)
      powerTail fault depth base rest) := by
  rw [power]
  refine outcome_bind ?_
  rintro base ⟨rest, h⟩
  dsimp only
  split
  · exact outcome_check (outcome_check (outcome_bind fun _ _ => rfl))
  · next hne =>
    unfold powerTail
    split
    · next rest₁ => exact absurd rfl (hne rest₁ h · HEq.rfl)
    · rfl

/-! ## Parts of a value -/

theorem outcome_parts :
    outcome (parts fault depth tokens) = (do
      let (e, rest) ← outcome (primary fault depth tokens)
      outcome (partsTail fault depth e rest)) := by
  rw [parts]
  refine outcome_bind fun e rest => ?_
  exact outcome_bind_ok fun _ _ => rfl

theorem outcome_partsTail_openBracket {object : Expr} :
    outcome (partsTail fault depth object (.symbol .openBracket :: tokens)) = (do
      take fault tokens
      let (key, rest) ← outcome (expression fault depth tokens)
      let (_, rest) ← outcome (expect fault .closeBracket .closeBracket rest)
      outcome (partsTail fault depth (.item object key) rest)) := by
  rw [partsTail]
  refine outcome_check (outcome_bind fun key rest => outcome_bind fun _ rest => ?_)
  exact outcome_bind_ok fun _ _ => rfl

theorem outcome_partsTail_dot {object : Expr} :
    outcome (partsTail fault depth object (.symbol .dot :: tokens)) = (do
      take fault tokens
      let (name, rest) ← outcome (piece fault tokens)
      outcome (partsTail fault depth (.attr object name) rest)) := by
  rw [partsTail]
  refine outcome_check (outcome_bind fun name rest => ?_)
  exact outcome_bind_ok fun _ _ => rfl

theorem outcome_partsTail_of_ne {object : Expr}
    (hbracket : tokens.head? ≠ some (.symbol .openBracket))
    (hdot : tokens.head? ≠ some (.symbol .dot)) :
    outcome (partsTail fault depth object tokens) = .ok (object, tokens) := by
  rw [partsTail]
  · rfl
  · rintro rest rfl
    exact hbracket rfl
  · rintro rest rfl
    exact hdot rfl

theorem outcome_piece :
    outcome (piece fault (token :: tokens)) = (do
      take fault tokens
      match pieceOf? token with
      | some text => .ok (text, tokens)
      | none => .error (.unexpected (some token) .attributeName)) := by
  rw [piece]
  refine outcome_check ?_
  cases pieceOf? token with
  | some text => rfl
  | none => rfl

theorem outcome_expect {s : Symbol} {expected : Expectation} :
    outcome (expect fault s expected (token :: tokens)) = (do
      take fault tokens
      if token = .symbol s then .ok ((), tokens)
      else .error (.unexpected (some token) expected)) := by
  rw [expect]
  refine outcome_check ?_
  split
  · rfl
  · rfl

/-! ## Values -/

theorem outcome_pathTail_dot :
    outcome (pathTail fault (.symbol .dot :: tokens)) = (do
      take fault tokens
      let (text, rest) ← outcome (piece fault tokens)
      let (tail, rest) ← outcome (pathTail fault rest)
      .ok ('.' :: (text ++ tail), rest)) := by
  rw [pathTail]
  exact outcome_check (outcome_bind fun text rest => outcome_bind fun _ _ => rfl)

theorem outcome_pathTail_of_ne (h : tokens.head? ≠ some (.symbol .dot)) :
    outcome (pathTail fault tokens) = .ok ([], tokens) := by
  rw [pathTail]
  · rfl
  · rintro rest rfl
    exact h rfl

theorem outcome_primary_nil :
    outcome (primary fault depth []) = .error (.unexpected none .expression) := by
  rw [primary]
  rfl

theorem outcome_primary_number {x : Number} :
    outcome (primary fault depth (.number x :: tokens)) = (do
      take fault tokens
      .ok (.const (.number x), tokens)) := by
  rw [primary]
  exact outcome_check rfl

theorem outcome_primary_string {content : Text} {escaped : Bool} :
    outcome (primary fault depth (.string content escaped :: tokens)) = (do
      take fault tokens
      .ok (.const (.string content), tokens)) := by
  rw [primary]
  exact outcome_check rfl

theorem outcome_primary_constant {word : Text} {v : Value} (h : constantOf? word = some v) :
    outcome (primary fault depth (.name word :: tokens)) = (do
      take fault tokens
      .ok (.const v, tokens)) := by
  rw [primary]
  refine outcome_check ?_
  simp only [h]
  rfl

theorem outcome_primary_path {word : Text} (h : constantOf? word = none) :
    outcome (primary fault depth (.name word :: tokens)) = (do
      take fault tokens
      let (tail, rest) ← outcome (pathTail fault tokens)
      .ok (.path (word ++ tail), rest)) := by
  rw [primary]
  refine outcome_check ?_
  simp only [h]
  exact outcome_bind fun _ _ => rfl

theorem outcome_primary_parens :
    outcome (primary fault depth (.symbol .openParen :: tokens)) = (do
      take fault tokens
      let (e, rest) ← outcome (expression fault depth tokens)
      let (_, rest) ← outcome (expect fault .closeParen .closeParen rest)
      .ok (e, rest)) := by
  rw [primary]
  exact outcome_check (outcome_bind fun e rest => outcome_bind fun _ _ => rfl)

theorem outcome_primary_list :
    outcome (primary fault depth (.symbol .openBracket :: tokens)) = (do
      take fault tokens
      let (items, rest) ← outcome (items fault depth tokens)
      .ok (.list items, rest)) := by
  rw [primary]
  exact outcome_check (outcome_bind fun _ _ => rfl)

/-- No value starts with another symbol. -/
theorem outcome_primary_symbol {s : Symbol} (hparen : s ≠ .openParen)
    (hbracket : s ≠ .openBracket) :
    outcome (primary fault depth (.symbol s :: tokens)) = (do
      take fault tokens
      .error (.unexpected (some (.symbol s)) .expression)) := by
  rw [primary]
  · exact outcome_check rfl
  · intro x h
    cases h
  · intro content escaped h
    cases h
  · intro word h
    cases h
  · exact fun h => hparen (Token.symbol.inj h)
  · exact fun h => hbracket (Token.symbol.inj h)

/-- What may follow an item of a list: the end of the list, or a comma and more. -/
def itemsTail (fault : Option SyntaxError) (depth : Nat) (item : Expr) :
    List Token → Except SyntaxError (List Expr × List Token)
  | .symbol .closeBracket :: tokens => do
    take fault tokens
    .ok ([item], tokens)
  | tokens => do
    let (_, rest) ← outcome (expect fault .comma .comma tokens)
    let (more, rest) ← outcome (items fault depth rest)
    .ok (item :: more, rest)

theorem outcome_items_nil :
    outcome (items fault depth (.symbol .closeBracket :: tokens)) = (do
      take fault tokens
      .ok ([], tokens)) := by
  rw [items]
  exact outcome_check rfl

theorem outcome_items (h : tokens.head? ≠ some (.symbol .closeBracket)) :
    outcome (items fault depth tokens) = (do
      let (item, rest) ← outcome (expression fault depth tokens)
      itemsTail fault depth item rest) := by
  rw [items]
  · refine outcome_bind ?_
    rintro item ⟨rest, h⟩
    dsimp only
    split
    · exact outcome_check rfl
    · next hne =>
      unfold itemsTail
      split
      · next rest₁ => exact absurd rfl (hne rest₁ h · HEq.rfl)
      · exact outcome_bind fun _ _ => outcome_bind fun _ _ => rfl
  · rintro rest rfl
    exact h rfl

end Stencil.Parser
