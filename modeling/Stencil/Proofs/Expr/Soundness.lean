import Stencil.Proofs.Expr.Phrase
import Stencil.Proofs.Expr.Rules

/-!
# What is read was written

Whatever a rule of the grammar reads, the tokens that it takes are a way of writing it: a rule takes
no token that is not in the phrase, leaves none of the phrase behind, and takes them in their order.

The rules call one another in a circle, but the circle closes behind a token only.  So each rule has
a lemma of its own, from the tightest to the loosest, under the hypothesis that the rules it calls
behind a token are sound on fewer tokens (`SoundBelow`), and one induction on the number of tokens
discharges it.  The rules that continue a phrase (`chainTail`, `partsTail`) are given what was read
before them, and their lemmas start from a phrase for it.

## Main Definitions

* `Parser.Taken`, `Parser.TakenItems` — a phrase, or the items of a list, between two places of the
  tokens
* `Parser.Sound`, `Parser.SoundBelow` — what is read is a phrase

## Main Results

* `Parser.soundBelow` — every rule is sound
* `Expr.exists_phrase_of_ofText` — a text that is accepted is written as a phrase of its expression
-/

namespace Stencil

namespace Parser

/-- A phrase is what was taken from the tokens, and some tokens are left.  If none are left, the
last one could be taken, so no fault stands behind it. -/
structure Taken (fault : Option SyntaxError) (tokens : List Token) (p : Phrase)
    (rest : List Token) : Prop where
  tokens_eq : tokens = p.tokens ++ rest
  spelled : p.Spelled
  fault_eq_none : rest = [] → fault = none

variable {fault : Option SyntaxError} {depth : Nat} {level : Level} {token : Token}
  {tokens mid rest : List Token} {p q : Phrase} {name : Text}

/-! ## One lemma for each form -/

section Forms

theorem taken_literal {v : Value} {u : Unit} (hv : v.SpelledBy token)
    (htake : take fault rest = .ok u) : Taken fault (token :: rest) (.literal token v) rest :=
  ⟨rfl, hv, fault_eq_none_of_take htake⟩

theorem Taken.not (htoken : isNegation token = true) (h : Taken fault tokens p rest) :
    Taken fault (token :: tokens) (.not token p) rest where
  tokens_eq := by rw [h.tokens_eq, Phrase.tokens_not_append]
  spelled := ⟨htoken, h.spelled⟩
  fault_eq_none := h.fault_eq_none

theorem Taken.neg (h : Taken fault tokens p rest) :
    Taken fault (.symbol .minus :: tokens) (.neg p) rest where
  tokens_eq := by rw [h.tokens_eq, Phrase.tokens_neg_append]
  spelled := h.spelled
  fault_eq_none := h.fault_eq_none

theorem Taken.binary {op : BinaryOp} (hleft : Taken fault tokens p (token :: mid))
    (hop : op.SpelledBy token) (hright : Taken fault mid q rest) :
    Taken fault tokens (.binary token op p q) rest where
  tokens_eq := by
    rw [hleft.tokens_eq, hright.tokens_eq, Phrase.tokens_binary_append]
  spelled := ⟨hop, hleft.spelled, hright.spelled⟩
  fault_eq_none := hright.fault_eq_none

theorem Taken.parens {u : Unit} (h : Taken fault tokens p (.symbol .closeParen :: rest))
    (htake : take fault rest = .ok u) :
    Taken fault (.symbol .openParen :: tokens) (.parens p) rest where
  tokens_eq := by
    rw [h.tokens_eq, Phrase.tokens_parens_append]
  spelled := h.spelled
  fault_eq_none := fault_eq_none_of_take htake

theorem Taken.attr {u : Unit} (h : Taken fault tokens p (.symbol .dot :: token :: rest))
    (hname : name.PieceBy token) (htake : take fault rest = .ok u) :
    Taken fault tokens (.attr p token name) rest where
  tokens_eq := by
    rw [h.tokens_eq, Phrase.tokens_attr_append]
  spelled := ⟨h.spelled, hname⟩
  fault_eq_none := fault_eq_none_of_take htake

theorem Taken.item {u : Unit} (hobject : Taken fault tokens p (.symbol .openBracket :: mid))
    (hkey : Taken fault mid q (.symbol .closeBracket :: rest)) (htake : take fault rest = .ok u) :
    Taken fault tokens (.item p q) rest where
  tokens_eq := by
    rw [hobject.tokens_eq, hkey.tokens_eq, Phrase.tokens_item_append]
  spelled := ⟨hobject.spelled, hkey.spelled⟩
  fault_eq_none := fault_eq_none_of_take htake

/-- Items were taken, up to the end of their list. -/
structure TakenItems (fault : Option SyntaxError) (tokens : List Token) (items : List Phrase)
    (trailing : Bool) (rest : List Token) : Prop where
  tokens_eq : tokens = Phrase.itemTokens trailing items ++ .symbol .closeBracket :: rest
  spelled : Phrase.SpelledItems items
  fault_eq_none : rest = [] → fault = none

theorem TakenItems.list {items : List Phrase} {trailing : Bool}
    (h : TakenItems fault tokens items trailing rest) :
    Taken fault (.symbol .openBracket :: tokens) (.list items trailing) rest where
  tokens_eq := by
    rw [h.tokens_eq, Phrase.tokens_list_append]
  spelled := h.spelled
  fault_eq_none := h.fault_eq_none

/-- The last item, without a comma. -/
theorem Taken.singleton {u : Unit} (h : Taken fault tokens p (.symbol .closeBracket :: rest))
    (htake : take fault rest = .ok u) : TakenItems fault tokens [p] false rest where
  tokens_eq := by
    rw [h.tokens_eq, Phrase.itemTokens_cons_append]
    rfl
  spelled := ⟨h.spelled, trivial⟩
  fault_eq_none := fault_eq_none_of_take htake

/-- An item and a comma in front of others, or of the end. -/
theorem Taken.cons {items : List Phrase} {trailing : Bool}
    (h : Taken fault tokens p (.symbol .comma :: mid))
    (hitems : TakenItems fault mid items trailing rest) :
    ∃ trailing, TakenItems fault tokens (p :: items) trailing rest := by
  cases items with
  | nil =>
    refine ⟨true, ?_, ⟨h.spelled, trivial⟩, hitems.fault_eq_none⟩
    rw [h.tokens_eq, Phrase.itemTokens_cons_append, hitems.tokens_eq]
    rfl
  | cons next items =>
    refine ⟨trailing, ?_, ⟨h.spelled, hitems.spelled⟩, hitems.fault_eq_none⟩
    rw [h.tokens_eq, Phrase.itemTokens_cons_append, hitems.tokens_eq]
    rfl

end Forms

/-! ## Steps that take one token -/

/-- A token that had to come was there. -/
theorem of_outcome_expect {s : Symbol} {expected : Expectation} {u : Unit}
    (h : outcome (expect fault s expected tokens) = .ok (u, rest)) :
    tokens = .symbol s :: rest ∧ ∃ u, take fault rest = .ok u := by
  cases tokens with
  | nil => cases h
  | cons token tokens =>
    rw [outcome_expect] at h
    simp only [bind_eq_ok_iff] at h
    obtain ⟨u, htake, h⟩ := h
    split at h
    · next htoken =>
      obtain ⟨-, rfl⟩ := Prod.mk.inj (Except.ok.inj h)
      exact ⟨by rw [htoken], u, htake⟩
    · cases h

/-- A piece of a key path was there. -/
theorem of_outcome_piece (h : outcome (piece fault tokens) = .ok (name, rest)) :
    ∃ token, tokens = token :: rest ∧ name.PieceBy token ∧ ∃ u, take fault rest = .ok u := by
  cases tokens with
  | nil => cases h
  | cons token tokens =>
    rw [outcome_piece] at h
    simp only [bind_eq_ok_iff] at h
    obtain ⟨u, htake, h⟩ := h
    split at h
    · next text hpiece =>
      obtain ⟨rfl, rfl⟩ := Prod.mk.inj (Except.ok.inj h)
      exact ⟨token, rfl, pieceOf?_eq_some_iff.mp hpiece, u, htake⟩
    · cases h

/-- The pieces of a key path were there. -/
theorem of_outcome_pathTail {tokens rest : List Token} {tail : Text}
    (h : outcome (pathTail fault tokens) = .ok (tail, rest)) (hfault : tokens = [] → fault = none) :
    ∃ pieces : List (Token × Text), tail = Phrase.pieceText pieces ∧
      tokens = Phrase.pieceTokens pieces ++ rest ∧
      (∀ piece ∈ pieces, Text.PieceBy piece.2 piece.1) ∧ (rest = [] → fault = none) := by
  by_cases hdot : tokens.head? = some (.symbol .dot)
  · obtain ⟨after, htokens⟩ := List.head?_eq_some_iff.mp hdot
    rw [htokens, outcome_pathTail_dot] at h
    simp only [bind_eq_ok_iff, Prod.exists, Except.ok.injEq, Prod.mk.injEq] at h
    obtain ⟨u, htake, text, behind, hpiece, more, last, hmore, rfl, rfl⟩ := h
    obtain ⟨token, hafter, hname, u, hlast⟩ := of_outcome_piece hpiece
    have hlt : behind.length < tokens.length := by
      rw [htokens, hafter]
      exact Nat.lt_succ_of_lt (Nat.lt_succ_self _)
    obtain ⟨pieces, hmore, hbehind, hpieces, hend⟩ :=
      of_outcome_pathTail hmore (fault_eq_none_of_take hlast)
    refine ⟨(token, text) :: pieces, ?_, ?_, List.forall_mem_cons.mpr ⟨hname, hpieces⟩, hend⟩
    · rw [hmore]
      rfl
    · rw [htokens, hafter, hbehind]
      rfl
  · rw [outcome_pathTail_of_ne hdot] at h
    obtain ⟨rfl, rfl⟩ := Prod.mk.inj (Except.ok.inj h)
    exact ⟨[], rfl, rfl, List.forall_mem_nil _, hfault⟩
termination_by tokens.length

/-! ## The rules -/

/-- Whatever is read from tokens as an expression is a phrase. -/
def Sound (fault : Option SyntaxError) (tokens : List Token)
    (x : Except SyntaxError (Expr × List Token)) : Prop :=
  ∀ e rest, x = .ok (e, rest) → ∃ p : Phrase, p.expr = e ∧ Taken fault tokens p rest

/-- The rules that others call behind a token are sound on fewer tokens than a number. -/
structure SoundBelow (fault : Option SyntaxError) (n : Nat) : Prop where
  expression : ∀ depth tokens, tokens.length < n →
    Sound fault tokens (outcome (expression fault depth tokens))
  operand : ∀ level depth tokens, tokens.length < n →
    Sound fault tokens (outcome (operand fault level depth tokens))
  negation : ∀ depth tokens, tokens.length < n →
    Sound fault tokens (outcome (negation fault depth tokens))
  unary : ∀ depth tokens, tokens.length < n →
    Sound fault tokens (outcome (unary fault depth tokens))
  items : ∀ depth tokens es rest, tokens.length < n →
    outcome (items fault depth tokens) = .ok (es, rest) →
      ∃ phrases trailing, Phrase.exprs phrases = es ∧
        TakenItems fault tokens phrases trailing rest

section Rules

variable {n : Nat}

theorem sound_primary (hbelow : SoundBelow fault n) (hn : tokens.length ≤ n) :
    Sound fault tokens (outcome (primary fault depth tokens)) := by
  intro e rest h
  cases tokens with
  | nil =>
    rw [outcome_primary_nil] at h
    cases h
  | cons token tokens =>
    cases token with
    | number x =>
      rw [outcome_primary_number] at h
      simp only [bind_eq_ok_iff, Except.ok.injEq, Prod.mk.injEq] at h
      obtain ⟨u, htake, rfl, rfl⟩ := h
      exact ⟨.literal _ _, rfl, taken_literal rfl htake⟩
    | string content escaped =>
      rw [outcome_primary_string] at h
      simp only [bind_eq_ok_iff, Except.ok.injEq, Prod.mk.injEq] at h
      obtain ⟨u, htake, rfl, rfl⟩ := h
      exact ⟨.literal _ _, rfl, taken_literal ⟨escaped, rfl⟩ htake⟩
    | name word =>
      cases hword : constantOf? word with
      | some v =>
        rw [outcome_primary_constant hword] at h
        simp only [bind_eq_ok_iff, Except.ok.injEq, Prod.mk.injEq] at h
        obtain ⟨u, htake, rfl, rfl⟩ := h
        exact ⟨.literal _ _, rfl, taken_literal (spelledBy_of_constantOf? hword) htake⟩
      | none =>
        rw [outcome_primary_path hword] at h
        simp only [bind_eq_ok_iff, Prod.exists, Except.ok.injEq, Prod.mk.injEq] at h
        obtain ⟨u, htake, tail, behind, htail, rfl, rfl⟩ := h
        obtain ⟨pieces, rfl, rfl, hpieces, hfault⟩ :=
          of_outcome_pathTail htail (fault_eq_none_of_take htake)
        exact ⟨.path word pieces, rfl, rfl, hpieces, hfault⟩
    | symbol s =>
      by_cases hparen : s = .openParen
      · subst hparen
        rw [outcome_primary_parens] at h
        simp only [bind_eq_ok_iff, Prod.exists, Except.ok.injEq, Prod.mk.injEq] at h
        obtain ⟨-, -, inner, behind, hinner, _, last, hclose, rfl, rfl⟩ := h
        obtain ⟨p, rfl, hp⟩ := hbelow.expression depth tokens hn _ _ hinner
        obtain ⟨rfl, u, htake⟩ := of_outcome_expect hclose
        exact ⟨.parens p, rfl, hp.parens htake⟩
      by_cases hbracket : s = .openBracket
      · subst hbracket
        rw [outcome_primary_list] at h
        simp only [bind_eq_ok_iff, Prod.exists, Except.ok.injEq, Prod.mk.injEq] at h
        obtain ⟨-, -, items, behind, hitems, rfl, rfl⟩ := h
        obtain ⟨phrases, trailing, rfl, hphrases⟩ := hbelow.items depth tokens _ _ hn hitems
        exact ⟨.list phrases trailing, rfl, hphrases.list⟩
      · rw [outcome_primary_symbol hparen hbracket] at h
        simp only [bind_eq_ok_iff] at h
        obtain ⟨-, -, h⟩ := h
        cases h

/-- The parts of a value that is already read are parts of its phrase. -/
theorem sound_partsTail (hbelow : SoundBelow fault n) {mid : List Token} (hn : mid.length ≤ n)
    {p : Phrase} (hp : Taken fault tokens p mid) :
    Sound fault tokens (outcome (partsTail fault depth p.expr mid)) := by
  intro e rest h
  by_cases hbracket : mid.head? = some (.symbol .openBracket)
  · obtain ⟨after, hmid⟩ := List.head?_eq_some_iff.mp hbracket
    rw [hmid, outcome_partsTail_openBracket] at h
    simp only [bind_eq_ok_iff, Prod.exists] at h
    obtain ⟨-, -, key, behind, hkey, _, last, hclose, h⟩ := h
    have hafter : after.length < mid.length := hmid ▸ Nat.lt_succ_self _
    have hbehind : behind.length < after.length := property_of_outcome hkey
    have hlast : last.length < behind.length := property_of_outcome hclose
    obtain ⟨q, rfl, hq⟩ := hbelow.expression depth after (by omega) _ _ hkey
    obtain ⟨rfl, u, htake⟩ := of_outcome_expect hclose
    have hitem : Taken fault tokens (.item p q) last := (hmid ▸ hp).item hq htake
    exact sound_partsTail hbelow (by omega) hitem e rest h
  by_cases hdot : mid.head? = some (.symbol .dot)
  · obtain ⟨after, hmid⟩ := List.head?_eq_some_iff.mp hdot
    rw [hmid, outcome_partsTail_dot] at h
    simp only [bind_eq_ok_iff, Prod.exists] at h
    obtain ⟨-, -, name, behind, hpiece, h⟩ := h
    have hafter : after.length < mid.length := hmid ▸ Nat.lt_succ_self _
    have hbehind : behind.length < after.length := property_of_outcome hpiece
    obtain ⟨token, rfl, hname, u, htake⟩ := of_outcome_piece hpiece
    have hattr : Taken fault tokens (.attr p token name) behind := (hmid ▸ hp).attr hname htake
    exact sound_partsTail hbelow (by omega) hattr e rest h
  · rw [outcome_partsTail_of_ne hbracket hdot] at h
    obtain ⟨rfl, rfl⟩ := Prod.mk.inj (Except.ok.inj h)
    exact ⟨p, rfl, hp⟩
termination_by mid.length

theorem sound_parts (hbelow : SoundBelow fault n) (hn : tokens.length ≤ n) :
    Sound fault tokens (outcome (parts fault depth tokens)) := by
  intro e rest h
  rw [outcome_parts] at h
  simp only [bind_eq_ok_iff, Prod.exists] at h
  obtain ⟨value, mid, hvalue, h⟩ := h
  have hmid : mid.length < tokens.length := property_of_outcome hvalue
  obtain ⟨p, rfl, hp⟩ := sound_primary hbelow hn _ _ hvalue
  exact sound_partsTail hbelow (by omega) hp e rest h

theorem sound_power (hbelow : SoundBelow fault n) (hn : tokens.length ≤ n) :
    Sound fault tokens (outcome (power fault depth tokens)) := by
  intro e rest h
  rw [outcome_power] at h
  simp only [bind_eq_ok_iff, Prod.exists] at h
  obtain ⟨base, mid, hbase, h⟩ := h
  have hmid : mid.length < tokens.length := property_of_outcome hbase
  obtain ⟨p, rfl, hp⟩ := sound_parts hbelow hn _ _ hbase
  unfold powerTail at h
  split at h
  · next after =>
    simp only [bind_eq_ok_iff, Prod.exists, Except.ok.injEq, Prod.mk.injEq] at h
    obtain ⟨-, -, -, -, exponent, behind, hexponent, rfl, rfl⟩ := h
    have hafter : after.length < n := by rw [List.length_cons] at hmid; omega
    obtain ⟨q, rfl, hq⟩ := hbelow.unary _ after hafter _ _ hexponent
    exact ⟨_, rfl, hp.binary BinaryOp.spelledBy_pow hq⟩
  · obtain ⟨rfl, rfl⟩ := Prod.mk.inj (Except.ok.inj h)
    exact ⟨p, rfl, hp⟩

theorem sound_unary (hbelow : SoundBelow fault n) (hn : tokens.length ≤ n) :
    Sound fault tokens (outcome (unary fault depth tokens)) := by
  by_cases hminus : tokens.head? = some (.symbol .minus)
  · obtain ⟨after, rfl⟩ := List.head?_eq_some_iff.mp hminus
    intro e rest h
    rw [outcome_unary] at h
    simp only [bind_eq_ok_iff, Prod.exists, Except.ok.injEq, Prod.mk.injEq] at h
    obtain ⟨-, -, -, -, operand, behind, hoperand, rfl, rfl⟩ := h
    obtain ⟨p, rfl, hp⟩ := hbelow.unary _ after hn _ _ hoperand
    exact ⟨.neg p, rfl, hp.neg⟩
  · rw [unary_of_ne hminus]
    exact sound_power hbelow hn

/-- The operators behind what is already read go on with its phrase. -/
theorem sound_chainTail (hbelow : SoundBelow fault n) {depth : Nat} {mid : List Token}
    (hn : mid.length ≤ n) {p : Phrase} (hp : Taken fault tokens p mid) :
    Sound fault tokens (outcome (chainTail fault level depth p.expr mid)) := by
  intro e rest h
  match mid, hn, hp, h with
  | [], _, hp, h =>
    rw [outcome_chainTail_nil] at h
    obtain ⟨rfl, rfl⟩ := Prod.mk.inj (Except.ok.inj h)
    exact ⟨p, rfl, hp⟩
  | token :: after, hn, hp, h =>
    cases hop : level.operator? token with
    | none =>
      rw [outcome_chainTail_of_none hop] at h
      obtain ⟨rfl, rfl⟩ := Prod.mk.inj (Except.ok.inj h)
      exact ⟨p, rfl, hp⟩
    | some op =>
      rw [outcome_chainTail_of_some hop] at h
      simp only [bind_eq_ok_iff, Prod.exists] at h
      obtain ⟨-, -, -, -, right, behind, hright, h⟩ := h
      have hbehind : behind.length < after.length := property_of_outcome hright
      rw [List.length_cons] at hn
      obtain ⟨q, rfl, hq⟩ := hbelow.operand level _ after hn _ _ hright
      have hpq := hp.binary (Level.spelledBy_of_operator? hop).2 hq
      exact sound_chainTail hbelow (by omega) hpq e rest h
termination_by mid.length

theorem sound_chain (hbelow : SoundBelow fault n) (hn : tokens.length ≤ n)
    (hoperand : Sound fault tokens (outcome (operand fault level depth tokens))) :
    Sound fault tokens (outcome (chain fault level depth tokens)) := by
  intro e rest h
  rw [outcome_chain] at h
  simp only [bind_eq_ok_iff, Prod.exists] at h
  obtain ⟨left, mid, hleft, h⟩ := h
  have hmid : mid.length < tokens.length := property_of_outcome hleft
  obtain ⟨p, rfl, hp⟩ := hoperand _ _ hleft
  exact sound_chainTail hbelow (by omega) hp e rest h

theorem sound_product (hbelow : SoundBelow fault n) (hn : tokens.length ≤ n) :
    Sound fault tokens (outcome (chain fault .product depth tokens)) :=
  sound_chain hbelow hn (operand_product ▸ sound_unary hbelow hn)

theorem sound_sum (hbelow : SoundBelow fault n) (hn : tokens.length ≤ n) :
    Sound fault tokens (outcome (chain fault .sum depth tokens)) :=
  sound_chain hbelow hn (operand_sum ▸ sound_product hbelow hn)

theorem sound_comparison (hbelow : SoundBelow fault n) (hn : tokens.length ≤ n) :
    Sound fault tokens (outcome (chain fault .comparison depth tokens)) :=
  sound_chain hbelow hn (operand_comparison ▸ sound_sum hbelow hn)

theorem sound_negation (hbelow : SoundBelow fault n) (hn : tokens.length ≤ n) :
    Sound fault tokens (outcome (negation fault depth tokens)) := by
  by_cases hnot : ∀ token ∈ tokens.head?, isNegation token = false
  · rw [negation_of_not hnot]
    exact sound_comparison hbelow hn
  · intro e rest h
    cases tokens with
    | nil => exact absurd (by rintro _ ⟨⟩) hnot
    | cons token after =>
      have htoken : isNegation token = true := by simpa using hnot
      rw [outcome_negation htoken] at h
      simp only [bind_eq_ok_iff, Prod.exists, Except.ok.injEq, Prod.mk.injEq] at h
      obtain ⟨-, -, -, -, operand, behind, hoperand, rfl, rfl⟩ := h
      obtain ⟨p, rfl, hp⟩ := hbelow.negation _ after hn _ _ hoperand
      exact ⟨.not token p, rfl, hp.not htoken⟩

theorem sound_operand (hbelow : SoundBelow fault n) (hn : tokens.length ≤ n) :
    Sound fault tokens (outcome (operand fault level depth tokens)) := by
  cases level with
  | disjunction =>
    rw [operand_disjunction]
    exact sound_chain hbelow hn (operand_conjunction ▸ sound_negation hbelow hn)
  | conjunction =>
    rw [operand_conjunction]
    exact sound_negation hbelow hn
  | comparison =>
    rw [operand_comparison]
    exact sound_sum hbelow hn
  | sum =>
    rw [operand_sum]
    exact sound_product hbelow hn
  | product =>
    rw [operand_product]
    exact sound_unary hbelow hn

theorem sound_expression (hbelow : SoundBelow fault n) (hn : tokens.length ≤ n) :
    Sound fault tokens (outcome (expression fault depth tokens)) := by
  intro e rest h
  rw [outcome_expression] at h
  simp only [bind_eq_ok_iff] at h
  obtain ⟨-, -, h⟩ := h
  exact sound_chain hbelow hn (sound_operand hbelow hn) e rest h

theorem sound_items (hbelow : SoundBelow fault n) (hn : tokens.length ≤ n) {es : List Expr}
    (h : outcome (items fault depth tokens) = .ok (es, rest)) :
    ∃ phrases trailing, Phrase.exprs phrases = es ∧
      TakenItems fault tokens phrases trailing rest := by
  by_cases hclose : tokens.head? = some (.symbol .closeBracket)
  · obtain ⟨after, rfl⟩ := List.head?_eq_some_iff.mp hclose
    rw [outcome_items_nil] at h
    simp only [bind_eq_ok_iff, Except.ok.injEq, Prod.mk.injEq] at h
    obtain ⟨u, htake, rfl, rfl⟩ := h
    exact ⟨[], false, rfl, rfl, trivial, fault_eq_none_of_take htake⟩
  rw [outcome_items hclose] at h
  simp only [bind_eq_ok_iff, Prod.exists] at h
  obtain ⟨item, mid, hitem, h⟩ := h
  have hmid : mid.length < tokens.length := property_of_outcome hitem
  obtain ⟨p, rfl, hp⟩ := sound_expression hbelow hn _ _ hitem
  unfold itemsTail at h
  split at h
  · simp only [bind_eq_ok_iff, Except.ok.injEq, Prod.mk.injEq] at h
    obtain ⟨u, htake, rfl, rfl⟩ := h
    exact ⟨[p], false, rfl, hp.singleton htake⟩
  · simp only [bind_eq_ok_iff, Prod.exists, Except.ok.injEq, Prod.mk.injEq] at h
    obtain ⟨_, after, hcomma, more, last, hmore, rfl, rfl⟩ := h
    have hafter : after.length < mid.length := property_of_outcome hcomma
    obtain ⟨rfl, -⟩ := of_outcome_expect hcomma
    obtain ⟨phrases, trailing, rfl, hphrases⟩ := hbelow.items _ after _ _ (by omega) hmore
    obtain ⟨trailing', hlist⟩ := hp.cons hphrases
    exact ⟨p :: phrases, trailing', rfl, hlist⟩

end Rules

/-- **Soundness.**  Every rule is sound on any number of tokens. -/
theorem soundBelow (fault : Option SyntaxError) (n : Nat) : SoundBelow fault n := by
  induction n with
  | zero =>
    exact ⟨fun _ _ h => absurd h (Nat.not_lt_zero _), fun _ _ _ h => absurd h (Nat.not_lt_zero _),
      fun _ _ h => absurd h (Nat.not_lt_zero _), fun _ _ h => absurd h (Nat.not_lt_zero _),
      fun _ _ _ _ h => absurd h (Nat.not_lt_zero _)⟩
  | succ n ih =>
    exact ⟨fun _ _ h => sound_expression ih (Nat.le_of_lt_succ h),
      fun _ _ _ h => sound_operand ih (Nat.le_of_lt_succ h),
      fun _ _ h => sound_negation ih (Nat.le_of_lt_succ h),
      fun _ _ h => sound_unary ih (Nat.le_of_lt_succ h),
      fun _ _ _ _ h => sound_items ih (Nat.le_of_lt_succ h)⟩

end Parser

namespace Expr

open Stencil.Parser

/-- **What is accepted was written.**  A text that stands for an expression can be read to its end,
and its tokens are a way of writing the expression. -/
theorem exists_phrase_of_ofText {t : Text} {e : Expr} (h : ofText t = .ok e) :
    ∃ p : Phrase, p.expr = e ∧ p.Spelled ∧ Token.readAll t = (p.tokens, none) := by
  rw [ofText] at h
  generalize hread : Token.readAll t = read at h
  obtain ⟨tokens, fault⟩ := read
  dsimp only at h
  rw [ofTokens_eq] at h
  simp only [bind_eq_ok_iff, Prod.exists] at h
  obtain ⟨-, -, e', rest, hexpression, h⟩ := h
  obtain ⟨p, rfl, hp⟩ :=
    (soundBelow fault (tokens.length + 1)).expression 0 tokens (Nat.lt_succ_self _) _ _ hexpression
  cases rest with
  | nil =>
    obtain rfl := Except.ok.inj h
    refine ⟨p, rfl, hp.spelled, ?_⟩
    rw [hp.fault_eq_none rfl, hp.tokens_eq, List.append_nil]
  | cons token rest =>
    simp only [bind_eq_ok_iff] at h
    obtain ⟨-, -, h⟩ := h
    cases h

end Expr

end Stencil
