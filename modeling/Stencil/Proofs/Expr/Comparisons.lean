import Mathlib.Data.List.Basic
import Mathlib.Data.List.Induction
import Stencil.Proofs.Evaluation.Absence
import Stencil.Proofs.Expr.Completeness

/-!
# Comparisons one after another

Nothing keeps a comparison from being compared again.  The rule for comparisons is that of sums and
products: operands with operators between them group to the left, so what stands behind the second
operator is compared with the truth of everything in front of it.  A text of sums with comparisons
between them is an expression, however many they are, up to the limit of the depth
(`Expr.ofText_comparisons`).  If the operator behind a comparison asks for an order, the expression
is never true, since a truth is neither less nor greater than any value
(`Expr.not_isTrue_eval_compared`).

A chain of comparisons is built from its left end by a fold, and each comparison adds the outermost
operator.  So the facts about a chain are proved by induction from its right end.

## Main Definitions

* `Comparand` — an expression that may stand on either side of a comparison
* `Comparison` — an operator of comparisons and its right side
* `Comparison.chain` — a sum with comparisons behind it, as it is written
-/

namespace Stencil

/-- An expression that may stand on either side of a comparison without parentheses. -/
structure Comparand where
  phrase : Phrase
  spelled : phrase.Spelled
  grouped : phrase.Grouped
  tight : Level.comparison.tightness < phrase.tightness

theorem Phrase.spelled_number (x : Number) : (literal (.number x) (.number x)).Spelled := rfl

/-- What has an end of its own may stand on either side of a comparison. -/
theorem Phrase.comparison_lt_tightness {p : Phrase} (h : p.tightness = 9) :
    Level.comparison.tightness < p.tightness := by
  rw [h]
  decide

/-- A number to compare. -/
def Comparand.number (x : Number) : Comparand where
  phrase := .literal (.number x) (.number x)
  spelled := Phrase.spelled_number x
  grouped := trivial
  tight := Phrase.comparison_lt_tightness rfl

/-- A name to compare. -/
def Comparand.name (name : Text) (h : name.IsFree) : Comparand where
  phrase := .path name []
  spelled := List.forall_mem_nil _
  grouped := h
  tight := Phrase.comparison_lt_tightness rfl

/-- An operator of comparisons, as it is written, and the sum on its right side. -/
structure Comparison where
  token : Token
  op : BinaryOp
  right : Comparand
  isComparison : op.tightness = Level.comparison.tightness
  spelled : op.SpelledBy token

namespace Comparison

/-- A phrase compared once more. -/
def extend (p : Phrase) (c : Comparison) : Phrase := .binary c.token c.op p c.right.phrase

/-- A sum with comparisons behind it, as it is written: each of them compares everything in front
of it. -/
def chain (first : Comparand) (cs : List Comparison) : Phrase := cs.foldl extend first.phrase

/-- The tokens of comparisons behind a sum. -/
def tokens (cs : List Comparison) : List Token :=
  cs.flatMap fun c => c.token :: c.right.phrase.tokens

/-- The expression of a sum with comparisons behind it. -/
def expr (first : Comparand) (cs : List Comparison) : Expr :=
  cs.foldl (fun left c => .binary c.op left c.right.phrase.expr) first.phrase.expr

variable (first : Comparand) (cs : List Comparison) (c : Comparison)

theorem chain_concat : chain first (cs ++ [c]) = extend (chain first cs) c := by
  rw [chain, List.foldl_concat]
  rfl

theorem tokens_chain : (chain first cs).tokens = first.phrase.tokens ++ tokens cs := by
  induction cs using List.reverseRecOn with
  | nil => exact (List.append_nil _).symm
  | append_singleton cs c ih =>
    have hlast : tokens (cs ++ [c]) = tokens cs ++ c.token :: c.right.phrase.tokens := by
      rw [tokens, List.flatMap_append, List.flatMap_singleton]
      rfl
    rw [chain_concat, extend, Phrase.tokens, ih, hlast, List.append_assoc]

theorem expr_chain : (chain first cs).expr = expr first cs := by
  induction cs using List.reverseRecOn with
  | nil => rfl
  | append_singleton cs c ih =>
    rw [chain_concat, extend, Phrase.expr, ih, expr, expr, List.foldl_concat]

theorem spelled_chain : (chain first cs).Spelled := by
  induction cs using List.reverseRecOn with
  | nil => exact first.spelled
  | append_singleton cs c ih =>
    rw [chain_concat]
    exact ⟨c.spelled, ih, c.right.spelled⟩

/-- A chain is as loose as a comparison at most. -/
theorem le_tightness_chain : Level.comparison.tightness ≤ (chain first cs).tightness := by
  induction cs using List.reverseRecOn with
  | nil => exact Nat.le_of_lt first.tight
  | append_singleton cs c _ =>
    rw [chain_concat]
    exact Nat.le_of_eq c.isComparison.symm

theorem grouped_chain : (chain first cs).Grouped := by
  induction cs using List.reverseRecOn with
  | nil => exact first.grouped
  | append_singleton cs c ih =>
    have hpow : c.op ≠ .pow := by
      intro hpow
      have htight := c.isComparison
      rw [hpow] at htight
      cases htight
    rw [chain_concat]
    refine ⟨ih, c.right.grouped, ?_⟩
    rw [if_neg hpow, c.isComparison]
    exact ⟨le_tightness_chain first cs, c.right.tight⟩

/-- A chain has as many operators as there are comparisons. -/
theorem chained_chain : (chain first cs).chained Level.comparison.tightness = cs.length := by
  induction cs using List.reverseRecOn with
  | nil => exact Phrase.chained_eq_zero first.tight
  | append_singleton cs c ih =>
    rw [chain_concat, extend, Phrase.chained, if_pos c.isComparison, ih, List.length_append,
      List.length_singleton]

/-- The first sum stands as deep as the chain, and the right side of each comparison is one deeper
than the one before it. -/
theorem deepest_chain_le_iff (depth limit : Nat) :
    (chain first cs).deepest depth ≤ limit ↔ first.phrase.deepest depth ≤ limit ∧
      ∀ i (h : i < cs.length), cs[i].right.phrase.deepest (i + 1 + depth) ≤ limit := by
  induction cs using List.reverseRecOn with
  | nil => exact ⟨fun h => ⟨h, nofun⟩, And.left⟩
  | append_singleton cs c ih =>
    have hlast : (chain first (cs ++ [c])).deepest depth =
        max ((chain first cs).deepest depth)
          (c.right.phrase.deepest (cs.length + 1 + depth)) := by
      rw [chain_concat, extend, Phrase.deepest, c.isComparison, chained_chain, Nat.add_assoc,
        Nat.add_comm depth]
    rw [hlast, Nat.max_le, ih, and_assoc]
    refine and_congr_right fun _ => ⟨?_, ?_⟩
    · rintro ⟨hinit, hc⟩ i h
      rw [List.length_append, List.length_singleton] at h
      by_cases hi : i < cs.length
      · rw [List.getElem_append_left hi]
        exact hinit i hi
      · obtain rfl : i = cs.length := by omega
        rw [List.getElem_concat_length rfl]
        exact hc
    · intro h
      refine ⟨fun i hi => ?_, ?_⟩
      · have hright := h i (by rw [List.length_append]; exact Nat.lt_add_right _ hi)
        rwa [List.getElem_append_left hi] at hright
      · have hright := h cs.length (by rw [List.length_append]; exact Nat.lt_succ_self _)
        rwa [List.getElem_concat_length rfl] at hright

end Comparison

/-! ## Reading comparisons -/

namespace Expr

open Stencil.Parser (depthLimit)

/-- Comparisons behind a sum are read up to the last one. -/
theorem ofTokens_comparisons (first : Comparand) (cs : List Comparison) :
    ofTokens (first.phrase.tokens ++ Comparison.tokens cs) none =
      if first.phrase.deepest 1 ≤ depthLimit ∧
          ∀ i (h : i < cs.length), cs[i].right.phrase.deepest (i + 2) ≤ depthLimit then
        .ok (Comparison.expr first cs)
      else .error .tooDeep := by
  have hread := ofTokens_tokens (Comparison.spelled_chain first cs)
    (Comparison.grouped_chain first cs)
  rw [Comparison.tokens_chain, Comparison.expr_chain] at hread
  exact hread.trans (if_congr (Comparison.deepest_chain_le_iff first cs 1 depthLimit) rfl rfl)

/-- **Comparisons group to the left.**  A text that is a sum with comparisons behind it, however
many, stands for an expression in which each of them compares the truth of all in front of it.  Only
a place that is too deep makes it none. -/
theorem ofText_comparisons (first : Comparand) (cs : List Comparison) {t : Text}
    (ht : Token.readAll t = (first.phrase.tokens ++ Comparison.tokens cs, none)) :
    ofText t =
      if first.phrase.deepest 1 ≤ depthLimit ∧
          ∀ i (h : i < cs.length), cs[i].right.phrase.deepest (i + 2) ≤ depthLimit then
        .ok (Comparison.expr first cs)
      else .error .tooDeep := by
  rw [ofText, ht]
  exact ofTokens_comparisons first cs

/-- Two words and a symbol one after another: `a IN b contains c == 1`. -/
theorem ofText_comparisons_words :
    ofText "a IN b contains c == 1".toList =
      .ok (.binary .eq (.binary .contains (.binary .isIn (.path "a".toList) (.path "b".toList))
        (.path "c".toList)) (.const (.number (.ofNat 1)))) := by
  let first := Comparand.name "a".toList (by decide)
  let cs : List Comparison :=
    [⟨.name "IN".toList, .isIn, .name "b".toList (by decide), rfl, .inr (by decide)⟩,
      ⟨.name "contains".toList, .contains, .name "c".toList (by decide), rfl, .inr (by decide)⟩,
      ⟨.symbol .equal, .eq, .number (.ofNat 1), rfl, .inl ⟨_, rfl, rfl⟩⟩]
  have ht : Token.readAll "a IN b contains c == 1".toList =
      (first.phrase.tokens ++ Comparison.tokens cs, none) := by decide +kernel
  exact (ofText_comparisons first cs ht).trans (if_pos (by decide))

/-- **A comparison of a comparison**: the text `1 < x < 10` is two comparisons one after the other,
and stands for an expression that compares the truth of the first one with `10`. -/
theorem ofText_between :
    ∃ (first : Comparand) (c c' : Comparison),
      Token.readAll "1 < x < 10".toList =
          (first.phrase.tokens ++ Comparison.tokens [c, c'], none) ∧
        ofText "1 < x < 10".toList =
          .ok (.binary .lt (.binary .lt (.const (.number (.ofNat 1))) (.path "x".toList))
            (.const (.number (.ofNat 10)))) := by
  let c : Comparison :=
    ⟨.symbol .less, .lt, .name "x".toList (by decide), rfl, .inl ⟨_, rfl, rfl⟩⟩
  let c' : Comparison := ⟨.symbol .less, .lt, .number (.ofNat 10), rfl, .inl ⟨_, rfl, rfl⟩⟩
  have ht : Token.readAll "1 < x < 10".toList =
      ((Comparand.number (.ofNat 1)).phrase.tokens ++ Comparison.tokens [c, c'], none) := by
    decide +kernel
  refine ⟨.number (.ofNat 1), c, c', ht, ?_⟩
  rw [ofText, ht]
  exact (ofTokens_comparisons (.number (.ofNat 1)) [c, c']).trans (if_pos (by decide))

end Expr

/-! ## What comparisons of comparisons are worth -/

/-- Whether an operator asks for the order of its operands. -/
def BinaryOp.asksOrder : BinaryOp → Bool
  | lt | le | gt | ge => true
  | _ => false

/-- A comparison gives a truth, whatever is compared. -/
theorem exists_truth_of_comparison {op : BinaryOp}
    (hop : op.tightness = Level.comparison.tightness) (x y : Value) :
    ∃ b, (applyBinary op x y).result = some (.bool b) := by
  cases op with
  | add | sub | mul | div | pow | and | or => cases hop
  | _ => exact ⟨_, rfl⟩

/-- No value is less or greater than a truth. -/
theorem result_applyBinary_bool {op : BinaryOp} (hop : op.asksOrder = true) (b : Bool)
    (y : Value) : (applyBinary op (.bool b) y).result = some (.bool false) := by
  cases op with
  | lt | le | gt | ge => cases y <;> rfl
  | _ => cases hop

namespace Expr

/-- **What is behind a comparison is not less or greater**: in no scope is a comparison, compared
once more by an operator that asks for an order, true. -/
theorem not_isTrue_eval_compared {op op' : BinaryOp}
    (hop : op.tightness = Level.comparison.tightness) (hop' : op'.asksOrder = true)
    (x y z : Expr) (s : Scope) :
    isTrue ((binary op' (binary op x y) z).eval s).result = false := by
  have hlazy : op.isLazy = false := by
    cases op with
    | and | or => cases hop
    | _ => rfl
  have hlazy' : op'.isLazy = false := by
    cases op' with
    | and | or => cases hop'
    | _ => rfl
  rw [result_eval_binary hlazy', result_eval_binary hlazy]
  cases (x.eval s).result with
  | none => rfl
  | some v =>
    cases (y.eval s).result with
    | none => rfl
    | some w =>
      obtain ⟨b, hb⟩ := exists_truth_of_comparison hop v w
      cases (z.eval s).result with
      | none => rw [Option.bind_some, Option.bind_some, hb]; rfl
      | some u =>
        rw [Option.bind_some, Option.bind_some, hb, Option.bind_some, Option.bind_some,
          result_applyBinary_bool hop']
        rfl

end Expr

end Stencil
