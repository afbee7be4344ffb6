import Stencil.Proofs.Expr.Escape
import Stencil.Proofs.Json.Reader.Rules
import Stencil.Proofs.Json.Strings

/-!
# How the strict reader takes strings

What the reader takes for a string was written as one, character by character
(`stringBy_of_readChars?`).  An escape is one of a letter, of a code unit that is no surrogate, or
of the two halves of a pair; the reader refuses every other one.
-/

namespace Stencil.Json

open Text (isHighSurrogate isLowSurrogate ofSurrogates)

variable {c : Char} {t rest s : Text} {unit : Nat}

/-! ## The reader of one escape -/

theorem exists_of_codeUnit? (h : outcome (codeUnit? t) = some (unit, rest)) :
    ∃ digits, UnitBy digits unit ∧ t = '\\' :: 'u' :: (digits ++ rest) := by
  unfold codeUnit? at h
  split at h
  · next a b c d tail =>
    rw [outcome, Option.map_map, Option.map_eq_some_iff] at h
    obtain ⟨n, hn, heq⟩ := h
    obtain ⟨rfl, rfl⟩ := Prod.mk.inj heq
    exact ⟨[a, b, c, d], ⟨rfl, Text.hexValue?_eq_some_iff.1 hn⟩, rfl⟩
  · cases h

theorem outcome_escape?_named (hc : c ≠ 'u') :
    outcome (escape? ('\\' :: c :: t)) = (namedEscape? c).map (·, t) := by
  rw [escape?, if_pos hc, outcome, Option.map_map]
  rfl

theorem outcome_escape?_unit :
    outcome (escape? ('\\' :: 'u' :: t)) =
      (outcome (codeUnit? ('\\' :: 'u' :: t))).bind fun (unit, rest) =>
        if isHighSurrogate unit then
          (outcome (codeUnit? rest)).bind fun (low, rest) =>
            if isLowSurrogate low then some (ofSurrogates unit low, rest) else none
        else if isLowSurrogate unit then none
        else some (Char.ofNat unit, rest) := by
  rw [escape?, if_neg (not_not_intro rfl)]
  refine outcome_bind fun unit rest => ?_
  dsimp only
  split_ifs
  · refine outcome_bind fun low rest => ?_
    dsimp only
    split_ifs <;> rfl
  · rfl
  · rfl

theorem mem_escapes_of_namedEscape? {letter : Char} (h : namedEscape? letter = some c) :
    (letter, c) ∈ escapes := by
  rw [namedEscape?] at h
  split_ifs at h with hself hb hf hn hr ht <;> obtain rfl := Option.some.inj h
  · rcases hself with rfl | rfl | rfl <;> decide
  all_goals simp [escapes, *]

/-- The two halves of pairs are all the surrogates. -/
theorem isSurrogate_eq_false (hhigh : ¬isHighSurrogate unit = true)
    (hlow : ¬isLowSurrogate unit = true) : Text.isSurrogate unit = false := by
  rw [← Bool.not_eq_true]
  simp only [isHighSurrogate, isLowSurrogate, Text.isSurrogate, Bool.and_eq_true,
    decide_eq_true_eq] at *
  omega

/-! ## What is read was written -/

theorem exists_charBy_of_escape? (h : outcome (escape? ('\\' :: t)) = some (c, rest)) :
    ∃ piece, CharBy c piece ∧ '\\' :: t = piece ++ rest := by
  cases t with
  | nil => cases h
  | cons letter t =>
    by_cases hu : letter = 'u'
    · subst hu
      rw [outcome_escape?_unit, Option.bind_eq_some_iff] at h
      obtain ⟨⟨unit, behind⟩, hunit, h⟩ := h
      obtain ⟨digits, hdigits, heq⟩ := exists_of_codeUnit? hunit
      rw [heq]
      dsimp only at h
      split_ifs at h with hhigh hlow
      · rw [Option.bind_eq_some_iff] at h
        obtain ⟨⟨low, after⟩, hlow, h⟩ := h
        obtain ⟨digits', hdigits', rfl⟩ := exists_of_codeUnit? hlow
        dsimp only at h
        split_ifs at h with hislow
        obtain ⟨rfl, rfl⟩ := Prod.mk.inj (Option.some.inj h)
        have hc := StringLiteral.toNat_ofSurrogates hhigh hislow
        refine ⟨_, .pair hdigits hdigits' ⟨hhigh, hislow⟩ hc, ?_⟩
        simp only [List.cons_append, List.append_assoc]
      · obtain ⟨rfl, rfl⟩ := Prod.mk.inj (Option.some.inj h)
        have hc := StringLiteral.toNat_ofNat_of_unitBy hdigits.spelled
          (isSurrogate_eq_false hhigh hlow)
        rw [← hc] at hdigits
        exact ⟨_, .unit hdigits, rfl⟩
    · rw [outcome_escape?_named hu, Option.map_eq_some_iff] at h
      obtain ⟨d, hd, heq⟩ := h
      obtain ⟨rfl, rfl⟩ := Prod.mk.inj heq
      exact ⟨['\\', letter], .named (mem_escapes_of_namedEscape? hd), rfl⟩

/-- What is read as a string was written as one, character by character. -/
theorem exists_pieces_of_readChars? (h : outcome (readChars? t) = some (s, rest)) :
    ∃ pieces, List.Forall₂ CharBy s pieces ∧ t = pieces.flatten ++ '"' :: rest := by
  induction t using readChars?.induct generalizing s rest with
  | case1 =>
    rw [readChars?] at h
    cases h
  | case2 t =>
    rw [outcome_readChars?_quote] at h
    obtain ⟨rfl, rfl⟩ := Prod.mk.inj (Option.some.inj h)
    exact ⟨[], .nil, rfl⟩
  | case3 t _ ih =>
    rw [outcome_readChars?_escape, Option.bind_eq_some_iff] at h
    obtain ⟨⟨c, behind⟩, hescape, h⟩ := h
    obtain ⟨⟨tail, after⟩, htail, heq⟩ := Option.map_eq_some_iff.1 h
    obtain ⟨rfl, rfl⟩ := Prod.mk.inj heq
    obtain ⟨pieces, hpieces, rfl⟩ := ih behind (length_lt_of_outcome hescape) htail
    obtain ⟨piece, hpiece, heq⟩ := exists_charBy_of_escape? hescape
    exact ⟨piece :: pieces, .cons hpiece hpieces, by
      rw [heq, List.flatten_cons, List.append_assoc]⟩
  | case4 c t hquote hbackslash hcontrol =>
    rw [readChars?_control hquote hbackslash hcontrol] at h
    cases h
  | case5 c t hquote hbackslash hcontrol ih =>
    have hge : 0x20 ≤ c.toNat := Nat.not_lt.1 hcontrol
    rw [outcome_readChars?_plain hquote hbackslash hge] at h
    obtain ⟨⟨tail, after⟩, htail, heq⟩ := Option.map_eq_some_iff.1 h
    obtain ⟨rfl, rfl⟩ := Prod.mk.inj heq
    obtain ⟨pieces, hpieces, rfl⟩ := ih htail
    exact ⟨[c] :: pieces, .cons (.plain hquote hbackslash hge) hpieces, rfl⟩

theorem stringBy_of_readChars? (h : outcome (readChars? t) = some (s, rest)) :
    ∃ quoted, StringBy s quoted ∧ '"' :: t = quoted ++ rest := by
  obtain ⟨pieces, hpieces, rfl⟩ := exists_pieces_of_readChars? h
  refine ⟨_, ⟨pieces, hpieces, rfl⟩, ?_⟩
  rw [List.cons_append, List.append_assoc, List.singleton_append]

end Stencil.Json
