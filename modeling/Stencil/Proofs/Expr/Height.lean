import Mathlib.Tactic.Common
import Mathlib.Tactic.Ring
import Stencil.Proofs.Expr.Completeness
import Stencil.Proofs.Expr.Tokens

/-!
# The height of expressions

The limit on the depth is to bound the stack that reading and evaluating an expression take.  It
does so wherever a rule counts: a subexpression, the operand of `not` or of a minus, the right side
of a power and every operator of a chain stand one deeper than what they belong to, and there the
expression that is read becomes higher by one at most (`Parser.nests_expression`).

One rule makes expressions higher and does not count: each name and each subscript behind a value
stands as deep as the one before it.  A text with many of them in a row is accepted, and the height
of its expression is their number (`Expr.height_not_bounded`).  So the limit does not bound the
height but the nesting, to which they do not contribute, and the height is bounded in terms of how
many of them come in a row (`Expr.height_of_ofText`).

## Main Definitions

* `Expr.nesting` — the height of an expression without names and subscripts in a row
* `Expr.longestRun` — how many names and subscripts come in a row
* `Parser.nestingBound` — the greatest nesting that is accepted
-/

namespace Stencil

namespace Expr

/-! ## Nesting and runs -/

mutual

/-- How deep an expression is nested.  A name or a subscript behind a value does not add to it, but
what stands in a subscript is nested one deeper. -/
def nesting : Expr → Nat
  | const _ | path _ => 1
  | attr object _ => nesting object
  | item object key => max (nesting object) (nesting key + 1)
  | not operand | neg operand => nesting operand + 1
  | binary _ left right => max (nesting left) (nesting right) + 1
  | list items => nestingItems items + 1

/-- How deep the items of a list are nested. -/
def nestingItems : List Expr → Nat
  | [] => 0
  | e :: rest => max (nesting e) (nestingItems rest)

end

/-- The number of names and subscripts at the end of an expression. -/
def run : Expr → Nat
  | attr object _ | item object _ => run object + 1
  | _ => 0

mutual

/-- The greatest number of names and subscripts in a row. -/
def longestRun : Expr → Nat
  | const _ | path _ => 0
  | attr object _ => max (run object + 1) (longestRun object)
  | item object key => max (run object + 1) (max (longestRun object) (longestRun key))
  | not operand | neg operand => longestRun operand
  | binary _ left right => max (longestRun left) (longestRun right)
  | list items => longestRunItems items

/-- The greatest number of names and subscripts in a row in the items of a list. -/
def longestRunItems : List Expr → Nat
  | [] => 0
  | e :: rest => max (longestRun e) (longestRunItems rest)

end

theorem run_le_longestRun (e : Expr) : e.run ≤ e.longestRun := by
  cases e with
  | attr | item => exact Nat.le_max_left _ _
  | const | path | not | neg | binary | list => exact Nat.zero_le _

/-- One step up in the nesting makes room for a run of names and subscripts. -/
theorem height_lt_of_height_add_le {e : Expr} {longest : Nat} (hrun : e.longestRun ≤ longest)
    (h : e.height + longest ≤ e.nesting * (longest + 1) + e.run) :
    e.height + 1 + longest ≤ (e.nesting + 1) * (longest + 1) := by
  have hle := e.run_le_longestRun
  rw [Nat.succ_mul]
  omega

mutual

/-- **Between two places of the nesting there is one run** of names and subscripts at most. -/
theorem height_add_le {longest : Nat} : (e : Expr) → e.longestRun ≤ longest →
    e.height + longest ≤ e.nesting * (longest + 1) + e.run
  | const _, _ | path _, _ => by
    simp only [height, nesting, run]
    omega
  | attr object _, h => by
    have hobject := height_add_le object (Nat.le_trans (Nat.le_max_right _ _) h)
    simp only [height, nesting, run]
    omega
  | item object key, h => by
    simp only [longestRun, Nat.max_le] at h
    have hobject := height_add_le object h.2.1
    have hkey := height_lt_of_height_add_le h.2.2 (height_add_le key h.2.2)
    have hleft := Nat.mul_le_mul_right (longest + 1)
      (Nat.le_max_left object.nesting (key.nesting + 1))
    have hright := Nat.mul_le_mul_right (longest + 1)
      (Nat.le_max_right object.nesting (key.nesting + 1))
    simp only [height, nesting, run]
    omega
  | not operand, h | neg operand, h => by
    simp only [longestRun] at h
    have hoperand := height_lt_of_height_add_le h (height_add_le operand h)
    simp only [height, nesting, run]
    omega
  | binary _ left right, h => by
    simp only [longestRun, Nat.max_le] at h
    have hleft := height_lt_of_height_add_le h.1 (height_add_le left h.1)
    have hright := height_lt_of_height_add_le h.2 (height_add_le right h.2)
    have hleft' := Nat.mul_le_mul_right (longest + 1)
      (Nat.add_le_add_right (Nat.le_max_left left.nesting right.nesting) 1)
    have hright' := Nat.mul_le_mul_right (longest + 1)
      (Nat.add_le_add_right (Nat.le_max_right left.nesting right.nesting) 1)
    simp only [height, nesting, run]
    omega
  | list items, h => by
    have hitems := heightItems_le items h
    simp only [height, nesting, run, Nat.succ_mul]
    omega

theorem heightItems_le {longest : Nat} : (items : List Expr) → longestRunItems items ≤ longest →
    heightItems items ≤ nestingItems items * (longest + 1)
  | [], _ => Nat.zero_le _
  | e :: rest, h => by
    simp only [longestRunItems, Nat.max_le] at h
    have hfirst := height_lt_of_height_add_le h.1 (height_add_le e h.1)
    have hrest := heightItems_le rest h.2
    have hleft := Nat.mul_le_mul_right (longest + 1)
      (Nat.le_max_left e.nesting (nestingItems rest))
    have hright := Nat.mul_le_mul_right (longest + 1)
      (Nat.le_max_right e.nesting (nestingItems rest))
    rw [Nat.succ_mul] at hfirst
    simp only [heightItems, nestingItems]
    omega

end

theorem height_le (e : Expr) : e.height ≤ e.nesting * (e.longestRun + 1) := by
  have h := height_lt_of_height_add_le (Nat.le_refl _) (height_add_le e (Nat.le_refl _))
  rw [Nat.succ_mul] at h
  omega

end Expr

namespace Parser

/-! ## What a rule reads -/

/-- The greatest nesting of an expression that stands so far away from the limit.  Each of the five
levels of chains, and signs together with powers, have room for one operator at each place. -/
def nestingBound (room : Nat) : Nat := room * (3 * room - 2)

/-- One place more is one subexpression more, with room for its operators behind it. -/
theorem nestingBound_succ (room : Nat) :
    nestingBound (room + 1) = nestingBound room + 1 + 6 * room := by
  cases room with
  | zero => rfl
  | succ n =>
    have hleft : 3 * (n + 1 + 1) - 2 = 3 * n + 4 := by omega
    have hright : 3 * (n + 1) - 2 = 3 * n + 1 := by omega
    rw [nestingBound, nestingBound, hleft, hright]
    ring

/-- Whatever is read is nested no deeper than a bound. -/
def Nests (bound : Nat) (x : Except SyntaxError (Expr × List Token)) : Prop :=
  ∀ e rest, x = .ok (e, rest) → e.nesting ≤ bound

theorem Nests.mono {bound bound' : Nat} {x : Except SyntaxError (Expr × List Token)}
    (h : Nests bound x) (hle : bound ≤ bound') : Nests bound' x := by
  intro e rest hx
  exact Nat.le_trans (h e rest hx) hle

theorem le_of_guardDepth {depth : Nat} {u : Unit} (h : guardDepth depth = .ok u) :
    depth ≤ depthLimit := by
  rw [guardDepth] at h
  split at h
  · assumption
  · cases h

variable {fault : Option SyntaxError} {level : Level} {first bound depth : Nat}
  {tokens : List Token}

section Rules

variable (hexpression : ∀ depth tokens, first ≤ depth →
  Nests bound (outcome (expression fault depth tokens)))

include hexpression

theorem nests_items (hdepth : first ≤ depth) {tokens : List Token} {es : List Expr}
    {rest : List Token} (h : outcome (items fault depth tokens) = .ok (es, rest)) :
    Expr.nestingItems es ≤ bound := by
  by_cases hclose : tokens.head? = some (.symbol .closeBracket)
  · obtain ⟨after, rfl⟩ := List.head?_eq_some_iff.mp hclose
    rw [outcome_items_nil] at h
    simp only [bind_eq_ok_iff, Except.ok.injEq, Prod.mk.injEq] at h
    obtain ⟨-, -, rfl, -⟩ := h
    exact Nat.zero_le _
  rw [outcome_items hclose] at h
  simp only [bind_eq_ok_iff, Prod.exists] at h
  obtain ⟨item, mid, hitem, h⟩ := h
  have hmid : mid.length < tokens.length := property_of_outcome hitem
  have hnesting : item.nesting ≤ bound := hexpression depth tokens hdepth _ _ hitem
  unfold itemsTail at h
  split at h
  · simp only [bind_eq_ok_iff, Except.ok.injEq, Prod.mk.injEq] at h
    obtain ⟨-, -, rfl, -⟩ := h
    exact Nat.max_le.2 ⟨hnesting, Nat.zero_le _⟩
  · simp only [bind_eq_ok_iff, Prod.exists, Except.ok.injEq, Prod.mk.injEq] at h
    obtain ⟨_, after, hcomma, more, last, hmore, rfl, -⟩ := h
    have hafter : after.length < mid.length := property_of_outcome hcomma
    exact Nat.max_le.2 ⟨hnesting, nests_items hdepth hmore⟩
termination_by tokens.length

theorem nests_primary (hdepth : first ≤ depth) :
    Nests (bound + 1) (outcome (primary fault depth tokens)) := by
  intro e rest h
  cases tokens with
  | nil =>
    rw [outcome_primary_nil] at h
    cases h
  | cons token tokens =>
    cases token with
    | number x =>
      rw [outcome_primary_number] at h
      simp only [bind_eq_ok_iff, Except.ok.injEq, Prod.mk.injEq] at h
      obtain ⟨-, -, rfl, -⟩ := h
      exact Nat.le_add_left 1 bound
    | string content escaped =>
      rw [outcome_primary_string] at h
      simp only [bind_eq_ok_iff, Except.ok.injEq, Prod.mk.injEq] at h
      obtain ⟨-, -, rfl, -⟩ := h
      exact Nat.le_add_left 1 bound
    | name word =>
      cases hword : constantOf? word with
      | some v =>
        rw [outcome_primary_constant hword] at h
        simp only [bind_eq_ok_iff, Except.ok.injEq, Prod.mk.injEq] at h
        obtain ⟨-, -, rfl, -⟩ := h
        exact Nat.le_add_left 1 bound
      | none =>
        rw [outcome_primary_path hword] at h
        simp only [bind_eq_ok_iff, Prod.exists, Except.ok.injEq, Prod.mk.injEq] at h
        obtain ⟨-, -, tail, behind, -, rfl, -⟩ := h
        exact Nat.le_add_left 1 bound
    | symbol s =>
      by_cases hparen : s = .openParen
      · subst hparen
        rw [outcome_primary_parens] at h
        simp only [bind_eq_ok_iff, Prod.exists, Except.ok.injEq, Prod.mk.injEq] at h
        obtain ⟨-, -, inner, behind, hinner, -, -, -, rfl, -⟩ := h
        exact Nat.le_succ_of_le (hexpression depth tokens hdepth _ _ hinner)
      by_cases hbracket : s = .openBracket
      · subst hbracket
        rw [outcome_primary_list] at h
        simp only [bind_eq_ok_iff, Prod.exists, Except.ok.injEq, Prod.mk.injEq] at h
        obtain ⟨-, -, items, behind, hitems, rfl, -⟩ := h
        exact Nat.succ_le_succ (nests_items hexpression hdepth hitems)
      · rw [outcome_primary_symbol hparen hbracket] at h
        simp only [bind_eq_ok_iff] at h
        obtain ⟨-, -, h⟩ := h
        cases h

/-- Names and subscripts behind a value do not nest it deeper. -/
theorem nests_partsTail (hdepth : first ≤ depth) {tokens : List Token} {object : Expr}
    (hobject : object.nesting ≤ bound + 1) :
    Nests (bound + 1) (outcome (partsTail fault depth object tokens)) := by
  intro e rest h
  by_cases hbracket : tokens.head? = some (.symbol .openBracket)
  · obtain ⟨after, htokens⟩ := List.head?_eq_some_iff.mp hbracket
    rw [htokens, outcome_partsTail_openBracket] at h
    simp only [bind_eq_ok_iff, Prod.exists] at h
    obtain ⟨-, -, key, behind, hkey, _, last, hclose, h⟩ := h
    have hafter : after.length < tokens.length := htokens ▸ Nat.lt_succ_self _
    have hbehind : behind.length < after.length := property_of_outcome hkey
    have hlast : last.length < behind.length := property_of_outcome hclose
    have hnesting := Nat.succ_le_succ (hexpression depth after hdepth _ _ hkey)
    have hitem : (Expr.item object key).nesting ≤ bound + 1 := Nat.max_le.2 ⟨hobject, hnesting⟩
    exact nests_partsTail hdepth hitem e rest h
  by_cases hdot : tokens.head? = some (.symbol .dot)
  · obtain ⟨after, htokens⟩ := List.head?_eq_some_iff.mp hdot
    rw [htokens, outcome_partsTail_dot] at h
    simp only [bind_eq_ok_iff, Prod.exists] at h
    obtain ⟨-, -, name, behind, hpiece, h⟩ := h
    have hafter : after.length < tokens.length := htokens ▸ Nat.lt_succ_self _
    have hbehind : behind.length < after.length := property_of_outcome hpiece
    have hattr : (Expr.attr object name).nesting ≤ bound + 1 := hobject
    exact nests_partsTail hdepth hattr e rest h
  · rw [outcome_partsTail_of_ne hbracket hdot] at h
    obtain ⟨rfl, -⟩ := Prod.mk.inj (Except.ok.inj h)
    exact hobject
termination_by tokens.length

theorem nests_parts (hdepth : first ≤ depth) :
    Nests (bound + 1) (outcome (parts fault depth tokens)) := by
  intro e rest h
  rw [outcome_parts] at h
  simp only [bind_eq_ok_iff, Prod.exists] at h
  obtain ⟨value, mid, hvalue, h⟩ := h
  exact nests_partsTail hexpression hdepth (nests_primary hexpression hdepth _ _ hvalue) e rest h

/-- In front of a value there is room for as many signs as the limit is away. -/
theorem nests_unary {depth : Nat} (hdepth : first ≤ depth) {tokens : List Token} :
    Nests (bound + 1 + (depthLimit - depth)) (outcome (unary fault depth tokens)) := by
  intro e rest h
  by_cases hminus : tokens.head? = some (.symbol .minus)
  · obtain ⟨after, rfl⟩ := List.head?_eq_some_iff.mp hminus
    rw [outcome_unary] at h
    simp only [bind_eq_ok_iff, Prod.exists, Except.ok.injEq, Prod.mk.injEq] at h
    obtain ⟨-, -, _, hguard, operand, behind, hoperand, rfl, -⟩ := h
    have hlimit : depth + 1 ≤ depthLimit := le_of_guardDepth hguard
    have hnesting := nests_unary (Nat.le_succ_of_le hdepth) _ _ hoperand
    simp only [Expr.nesting]
    omega
  · rw [unary_of_ne hminus, outcome_power] at h
    simp only [bind_eq_ok_iff, Prod.exists] at h
    obtain ⟨base, mid, hbase, h⟩ := h
    have hmid : mid.length < tokens.length := property_of_outcome hbase
    have hbase' := nests_parts hexpression hdepth _ _ hbase
    unfold powerTail at h
    split at h
    · next after =>
      simp only [bind_eq_ok_iff, Prod.exists, Except.ok.injEq, Prod.mk.injEq] at h
      obtain ⟨-, -, _, hguard, exponent, behind, hexponent, rfl, -⟩ := h
      have hlimit : depth + 1 ≤ depthLimit := le_of_guardDepth hguard
      have hafter : after.length < tokens.length := by rw [List.length_cons] at hmid; omega
      have hnesting := nests_unary (Nat.le_succ_of_le hdepth) _ _ hexponent
      simp only [Expr.nesting]
      omega
    · obtain ⟨rfl, -⟩ := Prod.mk.inj (Except.ok.inj h)
      exact Nat.le_trans hbase' (Nat.le_add_right _ _)
termination_by tokens.length

end Rules

/-! ## Chains -/

/-- From a depth on, what a rule reads is nested no deeper than a bound and a number of operators
for each place up to the limit. -/
def NestsBy (first bound operators : Nat)
    (rule : Nat → List Token → Except SyntaxError (Expr × List Token)) : Prop :=
  ∀ depth tokens, first ≤ depth →
    Nests (bound + operators * (depthLimit - depth)) (rule depth tokens)

/-- Every operator of a chain nests what stands before it one deeper, and is counted. -/
theorem nests_chainTail {depth : Nat}
    (hoperand : ∀ depth' tokens, depth ≤ depth' →
      Nests bound (outcome (operand fault level depth' tokens)))
    {bound' : Nat} (hle : bound ≤ bound') {left : Expr} (hleft : left.nesting ≤ bound')
    {tokens : List Token} :
    Nests (bound' + (depthLimit - depth)) (outcome (chainTail fault level depth left tokens)) := by
  intro e rest h
  match tokens, h with
  | [], h =>
    rw [outcome_chainTail_nil] at h
    obtain ⟨rfl, -⟩ := Prod.mk.inj (Except.ok.inj h)
    exact Nat.le_trans hleft (Nat.le_add_right _ _)
  | token :: after, h =>
    cases hop : level.operator? token with
    | none =>
      rw [outcome_chainTail_of_none hop] at h
      obtain ⟨rfl, -⟩ := Prod.mk.inj (Except.ok.inj h)
      exact Nat.le_trans hleft (Nat.le_add_right _ _)
    | some op =>
      rw [outcome_chainTail_of_some hop] at h
      simp only [bind_eq_ok_iff, Prod.exists] at h
      obtain ⟨_, hguard, -, -, right, behind, hright, h⟩ := h
      have hlimit : depth + 1 ≤ depthLimit := le_of_guardDepth hguard
      have hbehind : behind.length < after.length := property_of_outcome hright
      have hnesting : right.nesting ≤ bound := hoperand _ _ (Nat.le_succ depth) _ _ hright
      have hbinary : (Expr.binary op left right).nesting ≤ bound' + 1 :=
        Nat.succ_le_succ (Nat.max_le.2 ⟨hleft, Nat.le_trans hnesting hle⟩)
      have hdeeper : ∀ depth' tokens, depth + 1 ≤ depth' →
          Nests bound (outcome (operand fault level depth' tokens)) := by
        intro depth' tokens hdepth'
        exact hoperand depth' tokens (Nat.le_of_succ_le hdepth')
      have htail := nests_chainTail hdeeper (Nat.le_succ_of_le hle) hbinary e rest h
      omega
termination_by tokens.length

/-- A chain has room for one more operator at each place up to the limit. -/
theorem NestsBy.chain {operators : Nat}
    (h : NestsBy first bound operators fun depth tokens =>
      outcome (operand fault level depth tokens)) :
    NestsBy first bound (operators + 1) fun depth tokens =>
      outcome (chain fault level depth tokens) := by
  intro depth tokens hdepth e rest hread
  dsimp only at hread
  rw [outcome_chain] at hread
  simp only [bind_eq_ok_iff, Prod.exists] at hread
  obtain ⟨left, mid, hleft, htail⟩ := hread
  -- Operands that stand deeper have less room, so the bound at this depth is good for all of them.
  have hoperand : ∀ depth' tokens, depth ≤ depth' →
      Nests (bound + operators * (depthLimit - depth))
        (outcome (operand fault level depth' tokens)) := by
    intro depth' tokens hdepth'
    apply (h depth' tokens (Nat.le_trans hdepth hdepth')).mono
    exact Nat.add_le_add_left (Nat.mul_le_mul_left _ (Nat.sub_le_sub_left hdepth' _)) _
  have hnesting := h depth tokens hdepth _ _ hleft
  have hnesting := nests_chainTail hoperand (Nat.le_refl _) hnesting _ _ htail
  rwa [Nat.add_assoc, ← Nat.succ_mul] at hnesting

/-- A negation nests what it negates one deeper, and is counted. -/
theorem NestsBy.negation {operators : Nat}
    (h : NestsBy first bound (operators + 1) fun depth tokens =>
      outcome (Parser.chain fault .comparison depth tokens)) :
    NestsBy first bound (operators + 1) fun depth tokens =>
      outcome (Parser.negation fault depth tokens) := by
  intro depth tokens hdepth
  induction tokens generalizing depth with
  | nil =>
    have hnot : ∀ t ∈ ([] : List Token).head?, isNegation t = false := by rintro _ ⟨⟩
    dsimp only
    rw [negation_of_not hnot]
    exact h depth [] hdepth
  | cons token after ih =>
    dsimp only
    cases htoken : isNegation token with
    | false =>
      have hnot : ∀ t ∈ (token :: after).head?, isNegation t = false := by
        simpa using htoken
      rw [negation_of_not hnot]
      exact h depth _ hdepth
    | true =>
      rw [outcome_negation htoken]
      intro e rest hread
      simp only [bind_eq_ok_iff, Prod.exists, Except.ok.injEq, Prod.mk.injEq] at hread
      obtain ⟨-, -, _, hguard, operand, behind, hoperand, rfl, -⟩ := hread
      have hlimit : depth + 1 ≤ depthLimit := le_of_guardDepth hguard
      have hnesting := ih (depth + 1) (Nat.le_succ_of_le hdepth) _ _ hoperand
      have hroom : depthLimit - depth = depthLimit - (depth + 1) + 1 := by omega
      rw [hroom, Nat.mul_succ]
      simp only [Expr.nesting]
      omega

/-- From the tightest rule to the loosest one, each level of operators adds one for each place. -/
theorem nestsBy_disjunction (hexpression : ∀ depth tokens, first ≤ depth →
    Nests bound (outcome (expression fault depth tokens))) :
    NestsBy first (bound + 1) 6 fun depth tokens =>
      outcome (chain fault .disjunction depth tokens) := by
  have hunary : NestsBy first (bound + 1) 1 fun depth tokens =>
      outcome (unary fault depth tokens) := by
    intro depth tokens hdepth
    rw [Nat.one_mul]
    exact nests_unary hexpression hdepth
  have hproduct : NestsBy first (bound + 1) 2 fun depth tokens =>
      outcome (chain fault .product depth tokens) :=
    NestsBy.chain (by simpa only [operand_product] using hunary)
  have hsum : NestsBy first (bound + 1) 3 fun depth tokens =>
      outcome (chain fault .sum depth tokens) :=
    NestsBy.chain (by simpa only [operand_sum] using hproduct)
  have hcomparison : NestsBy first (bound + 1) 4 fun depth tokens =>
      outcome (chain fault .comparison depth tokens) :=
    NestsBy.chain (by simpa only [operand_comparison] using hsum)
  have hconjunction : NestsBy first (bound + 1) 5 fun depth tokens =>
      outcome (chain fault .conjunction depth tokens) :=
    NestsBy.chain (by simpa only [operand_conjunction] using hcomparison.negation)
  exact NestsBy.chain (by simpa only [operand_disjunction] using hconjunction)

/-- **Where the limit is near, nothing is nested deep.** -/
theorem nests_expression (room : Nat) {depth : Nat} (hroom : depthLimit ≤ depth + room)
    {tokens : List Token} :
    Nests (nestingBound room) (outcome (expression fault depth tokens)) := by
  intro e rest h
  induction room generalizing depth tokens e rest with
  | zero =>
    rw [outcome_expression] at h
    simp only [bind_eq_ok_iff] at h
    obtain ⟨u, hguard, -⟩ := h
    have hlimit : depth + 1 ≤ depthLimit := le_of_guardDepth hguard
    omega
  | succ room ih =>
    rw [outcome_expression] at h
    simp only [bind_eq_ok_iff] at h
    obtain ⟨u, hguard, h⟩ := h
    have hlimit : depth + 1 ≤ depthLimit := le_of_guardDepth hguard
    have hbelow : ∀ depth' tokens, depth + 1 ≤ depth' →
        Nests (nestingBound room) (outcome (expression fault depth' tokens)) := by
      intro depth' tokens hdepth' e rest
      exact ih (by omega) e rest
    have hnesting := nestsBy_disjunction hbelow (depth + 1) tokens (Nat.le_refl _) e rest h
    rw [nestingBound_succ]
    omega

end Parser

/-! ## Names in a row -/

/-- The names behind a value, as many as a number says. -/
def Text.names (n : Nat) : Text := (List.replicate n ".b".toList).flatten

/-- A list with names behind it. -/
def Text.dotted (n : Nat) : Text := "[]".toList ++ names n

theorem Text.names_succ (n : Nat) : names (n + 1) = '.' :: 'b' :: names n := by
  rw [names, List.replicate_succ]
  rfl

namespace Token

/-- The tokens of the names behind a value. -/
def names (n : Nat) : List Token :=
  (List.replicate n [.symbol .dot, .name "b".toList]).flatten

/-- A name ends at the dot in front of the next one. -/
theorem next?_name (n : Nat) :
    next? true 'b' (Text.names n) =
      .ok (.name "b".toList, ⟨Text.names n, Nat.lt_succ_self _⟩) := by
  cases n with
  | zero => rfl
  | succ n =>
    rw [Text.names_succ]
    rfl

theorem readFrom_names (n : Nat) : readFrom false (Text.names n) = (names n, none) := by
  induction n with
  | zero =>
    rw [readFrom]
    rfl
  | succ n ih =>
    have hdot : next? false '.' ('b' :: Text.names n) =
        .ok (.symbol .dot, ⟨'b' :: Text.names n, Nat.lt_succ_self _⟩) := rfl
    have hname : readFrom true ('b' :: Text.names n) = (.name "b".toList :: names n, none) :=
      readFrom_cons rfl (next?_name n) ih
    rw [Text.names_succ]
    exact readFrom_cons rfl hdot hname

theorem readAll_dotted (n : Nat) :
    readAll (Text.dotted n) =
      (.symbol .openBracket :: .symbol .closeBracket :: names n, none) := by
  have hopen : next? false '[' (']' :: Text.names n) =
      .ok (.symbol .openBracket, ⟨']' :: Text.names n, Nat.lt_succ_self _⟩) := rfl
  have hclose : next? false ']' (Text.names n) =
      .ok (.symbol .closeBracket, ⟨Text.names n, Nat.lt_succ_self _⟩) := by
    cases n with
    | zero => rfl
    | succ n =>
      rw [Text.names_succ]
      rfl
  have hrest : readFrom false (']' :: Text.names n) = (.symbol .closeBracket :: names n, none) :=
    readFrom_cons rfl hclose (readFrom_names n)
  exact readFrom_cons rfl hopen hrest

end Token

/-- A list with names behind it, as it is written. -/
def Phrase.dotted (n : Nat) : Phrase :=
  Nat.repeat (fun object => .attr object (.name "b".toList) "b".toList) n (.list [] false)

namespace Phrase

theorem dotted_succ (n : Nat) :
    dotted (n + 1) = .attr (dotted n) (.name "b".toList) "b".toList := rfl

theorem tokens_dotted (n : Nat) :
    (dotted n).tokens = .symbol .openBracket :: .symbol .closeBracket :: Token.names n := by
  induction n with
  | zero => rfl
  | succ n ih =>
    rw [dotted_succ, tokens, ih, Token.names, Token.names, List.replicate_succ',
      List.flatten_append]
    rfl

theorem spelled_dotted (n : Nat) : (dotted n).Spelled := by
  induction n with
  | zero => trivial
  | succ n ih => exact ⟨ih, .inl rfl⟩

theorem grouped_dotted (n : Nat) : (dotted n).Grouped := by
  induction n with
  | zero => trivial
  | succ n ih =>
    refine ⟨ih, ?_, ?_⟩
    · cases n with
      | zero => decide
      | succ n => exact Nat.le_refl 8
    · cases n <;> rfl

theorem deepest_dotted (depth n : Nat) : (dotted n).deepest depth = depth := by
  induction n with
  | zero => rfl
  | succ n ih => exact ih

theorem height_dotted (n : Nat) : (dotted n).expr.height = n + 1 := by
  induction n with
  | zero => rfl
  | succ n ih => exact congrArg (· + 1) ih

end Phrase

namespace Expr

open Stencil.Parser

/-- Names behind a value are accepted, however many there are. -/
theorem ofText_dotted (n : Nat) : ofText (Text.dotted n) = .ok (Phrase.dotted n).expr := by
  rw [ofText, Token.readAll_dotted, ← Phrase.tokens_dotted]
  refine (ofTokens_tokens (Phrase.spelled_dotted n) (Phrase.grouped_dotted n)).trans (if_pos ?_)
  rw [Phrase.deepest_dotted]
  decide

/-- **What is accepted is as high as its runs of names and subscripts let it be.**  The nesting of
an expression that a text stands for has a bound that depends on the limit on the depth only, and
its height is at most that bound for each name or subscript of the longest run, and once more. -/
theorem height_of_ofText {t : Text} {e : Expr} (h : ofText t = .ok e) :
    e.nesting ≤ nestingBound depthLimit ∧
      e.height ≤ nestingBound depthLimit * (e.longestRun + 1) := by
  rw [ofText] at h
  rcases Token.readAll t with ⟨tokens, fault⟩
  dsimp only at h
  rw [ofTokens_eq] at h
  simp only [bind_eq_ok_iff, Prod.exists] at h
  obtain ⟨-, -, e', rest, hexpression, h⟩ := h
  have he : e' = e := by
    cases rest with
    | nil => exact Except.ok.inj h
    | cons token rest =>
      simp only [bind_eq_ok_iff] at h
      obtain ⟨-, -, h⟩ := h
      cases h
  subst he
  have hnesting := nests_expression depthLimit (Nat.le_add_left _ 0) e' rest hexpression
  exact ⟨hnesting, Nat.le_trans e'.height_le (Nat.mul_le_mul_right _ hnesting)⟩

example : nestingBound depthLimit = 7400 := rfl

theorem height_of_ofText_dotted :
    ofText "[].b.b.b".toList = .ok (Phrase.dotted 3).expr ∧
      (Phrase.dotted 3).expr.nesting ≤ nestingBound depthLimit ∧
      (Phrase.dotted 3).expr.height ≤
        nestingBound depthLimit * ((Phrase.dotted 3).expr.longestRun + 1) :=
  ⟨ofText_dotted 3, height_of_ofText (ofText_dotted 3)⟩

/-- **The height of what is accepted is not bounded.**  A list with names behind it is accepted,
however many there are, and it is as high as they are many. -/
theorem height_not_bounded :
    ¬∃ bound, ∀ t e, ofText t = .ok e → e.height ≤ bound := by
  rintro ⟨bound, h⟩
  have hheight := h _ _ (ofText_dotted bound)
  rw [Phrase.height_dotted] at hheight
  exact Nat.not_succ_le_self bound hheight

end Expr

end Stencil
