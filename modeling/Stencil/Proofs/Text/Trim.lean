import Mathlib.Data.List.DropRight
import Stencil.Text.Blank

/-!
# Texts between white space

What is written with white space around it is read without: the white space in front of a text and
behind it makes no difference to what is trimmed, and a text that has none stays as it is.  Words
hold no white space, so they end where white space starts.

## Main Definitions

* `Text.StopsWord` — no word character comes next
-/

namespace Stencil.Text

/-! ## Trimming -/

theorem trimStart_append {w : Text} (h : allBlank w = true) (t : Text) :
    trimStart (w ++ t) = trimStart t :=
  List.dropWhile_append_of_pos (List.all_eq_true.1 h)

theorem trimStart_eq_nil {w : Text} (h : allBlank w = true) : trimStart w = [] :=
  List.dropWhile_eq_nil_iff.2 (List.all_eq_true.1 h)

/-- White space is taken away up to the first character that is none. -/
theorem trimStart_append_cons {w : Text} (h : allBlank w = true) {c : Char}
    (hc : isBlank c = false) (t : Text) : trimStart (w ++ c :: t) = c :: t := by
  rw [trimStart_append h, trimStart, List.dropWhile_cons_of_neg (by simp [hc])]

theorem trimEnd_append {w : Text} (h : allBlank w = true) (t : Text) :
    trimEnd (t ++ w) = trimEnd t := by
  have hreverse : ∀ c ∈ w.reverse, isBlank c := fun c hc =>
    List.all_eq_true.1 h c (List.mem_reverse.1 hc)
  rw [trimEnd, List.reverse_append, List.dropWhile_append_of_pos hreverse, trimEnd]

/-- What stands in front of a text that has no white space at its end stays. -/
theorem trimEnd_append_of_trimEnd_eq {t : Text} (h : trimEnd t = t) (hne : t ≠ []) (u : Text) :
    trimEnd (u ++ t) = u ++ t := by
  refine List.rdropWhile_eq_self_iff.2 fun _ => ?_
  rw [List.getLast_append_of_ne_nil _ hne]
  exact List.rdropWhile_eq_self_iff.1 h hne

/-- Behind a text that has no white space at its end, white space goes by itself. -/
theorem trimEnd_append_right {u : Text} (h : trimEnd u = u) (t : Text) :
    trimEnd (u ++ t) = u ++ trimEnd t := by
  have hu : u.reverse.dropWhile isBlank = u.reverse := by
    rw [← List.reverse_inj, List.reverse_reverse]
    exact h
  rw [trimEnd, List.reverse_append, List.dropWhile_append, hu, trimEnd]
  split
  · next hempty => rw [List.isEmpty_iff.1 hempty, List.reverse_reverse, List.reverse_nil,
      List.append_nil]
  · rw [List.reverse_append, List.reverse_reverse]

/-- White space behind a text makes no difference. -/
theorem trim_append_right {w : Text} (h : allBlank w = true) (t : Text) :
    trim (t ++ w) = trim t := by
  rw [trim, trim, trimStart, List.dropWhile_append, ← trimStart, ← trimStart]
  split
  · next hempty => rw [List.isEmpty_iff.1 hempty, trimStart_eq_nil h]
  · exact trimEnd_append h _

/-- The white space at the end of a text. -/
theorem exists_trimEnd (t : Text) : ∃ w, allBlank w = true ∧ t = trimEnd t ++ w := by
  refine ⟨(t.reverse.takeWhile isBlank).reverse, ?_, ?_⟩
  · rw [allBlank, List.all_reverse]
    exact List.all_eq_true.2 fun c hc => List.mem_takeWhile_imp hc
  · rw [trimEnd, ← List.reverse_append, List.takeWhile_append_dropWhile, List.reverse_reverse]

/-- The white space at both ends of a text. -/
theorem exists_trim (t : Text) :
    ∃ w w', allBlank w = true ∧ allBlank w' = true ∧ t = w ++ (trim t ++ w') := by
  obtain ⟨w', hw', hend⟩ := exists_trimEnd (trimStart t)
  refine ⟨t.takeWhile isBlank, w', List.all_takeWhile, hw', ?_⟩
  rw [trim, ← hend]
  exact List.takeWhile_append_dropWhile.symm

/-- White space that is gone at the end makes no difference. -/
theorem trim_trimEnd (t : Text) : trim (trimEnd t) = trim t := by
  obtain ⟨w, hw, hsplit⟩ := exists_trimEnd t
  conv_rhs => rw [hsplit]
  rw [trim_append_right hw]

/-- White space that is gone at the start makes no difference. -/
theorem trim_trimStart (t : Text) : trim (trimStart t) = trim t := by
  rw [trim, trim, trimStart, trimStart, List.dropWhile_idempotent]

/-- White space around a text makes no difference. -/
theorem trim_between {w w' : Text} (h : allBlank w = true) (h' : allBlank w' = true) (t : Text) :
    trim (w ++ (t ++ w')) = trim t := by
  rw [trim, trimStart_append h, ← trim, trim_append_right h']

/-- A text without any white space stays as it is. -/
theorem trim_eq_self {t : Text} (h : ∀ c ∈ t, isBlank c = false) : trim t = t := by
  have hstart : trimStart t = t := by
    cases t with
    | nil => rfl
    | cons c t => exact List.dropWhile_cons_of_neg (by simp [h c List.mem_cons_self])
  rw [trim, hstart]
  refine List.rdropWhile_eq_self_iff.2 fun hne => ?_
  rw [h _ (List.getLast_mem hne)]
  exact Bool.false_ne_true

/-- A text without white space at its ends stays as it is. -/
theorem trim_eq_self_of_ends {c d : Char} (hc : isBlank c = false) (hd : isBlank d = false)
    (t : Text) : trim (c :: (t ++ [d])) = c :: (t ++ [d]) := by
  have hlast : trimEnd [d] = [d] :=
    List.rdropWhile_eq_self_iff.2 fun _ => by simp [hd]
  rw [trim, trimStart, List.dropWhile_cons_of_neg (by simp [hc]), ← List.cons_append]
  exact trimEnd_append_of_trimEnd_eq hlast (List.cons_ne_nil _ _) _

/-- What is not empty and white space throughout starts with white space. -/
theorem startsBlank_append {w : Text} (h : allBlank w = true) (hne : w ≠ []) (t : Text) :
    startsBlank (w ++ t) = true := by
  obtain ⟨c, w, rfl⟩ := List.exists_cons_of_ne_nil hne
  exact List.all_eq_true.1 h c List.mem_cons_self

/-! ## Runs -/

/-- Characters of one sort are read to the end of their run. -/
theorem splitRun_append {p : Char → Bool} {w t : Text} (hw : ∀ c ∈ w, p c = true)
    (ht : ∀ c ∈ t.head?, p c = false) :
    (w ++ t).takeWhile p = w ∧ (w ++ t).dropWhile p = t := by
  rw [List.takeWhile_append_of_pos hw, List.dropWhile_append_of_pos hw]
  cases t with
  | nil => simp
  | cons c t => simp [ht c rfl]

/-- A run and what comes behind it can be told apart. -/
theorem append_inj_of_run {p : Char → Bool} {w w' t t' : Text} (hw : ∀ c ∈ w, p c = true)
    (hw' : ∀ c ∈ w', p c = true) (ht : ∀ c ∈ t.head?, p c = false)
    (ht' : ∀ c ∈ t'.head?, p c = false) (h : w ++ t = w' ++ t') : w = w' ∧ t = t' := by
  obtain ⟨hrun, hrest⟩ := splitRun_append hw ht
  rw [h, (splitRun_append hw' ht').1] at hrun
  rw [h, (splitRun_append hw' ht').2] at hrest
  exact ⟨hrun.symm, hrest.symm⟩

/-! ## Words -/

/-- A Latin letter by its code. -/
theorem isAlpha_iff {c : Char} : c.isAlpha = true ↔
    65 ≤ c.toNat ∧ c.toNat ≤ 90 ∨ 97 ≤ c.toNat ∧ c.toNat ≤ 122 := by
  show (decide (c.val ≥ 'A'.val ∧ c.val ≤ 'Z'.val) ||
    (decide (c.val ≥ 'a'.val) && decide (c.val ≤ 'z'.val))) = true ↔ _
  simp only [Bool.or_eq_true, Bool.and_eq_true, decide_eq_true_eq, ge_iff_le,
    UInt32.le_iff_toNat_le]
  rfl

/-- A digit by its code. -/
theorem isDigit_iff {c : Char} : c.isDigit = true ↔ 48 ≤ c.toNat ∧ c.toNat ≤ 57 := by
  show (decide (c.val ≥ '0'.val) && decide (c.val ≤ '9'.val)) = true ↔ _
  simp only [Bool.and_eq_true, decide_eq_true_eq, ge_iff_le, UInt32.le_iff_toNat_le]
  rfl

/-- A word character by its code. -/
theorem isWordChar_iff {c : Char} : isWordChar c = true ↔
    65 ≤ c.toNat ∧ c.toNat ≤ 90 ∨ 97 ≤ c.toNat ∧ c.toNat ≤ 122 ∨ 48 ≤ c.toNat ∧ c.toNat ≤ 57 ∨
      c.toNat = 95 := by
  have hunderscore : c = '_' ↔ c.toNat = 95 := by rw [← Char.toNat_inj]; rfl
  show ((c.isAlpha || c.isDigit) || c == '_') = true ↔ _
  rw [Bool.or_eq_true, Bool.or_eq_true, isAlpha_iff, isDigit_iff, beq_iff_eq, hunderscore,
    or_assoc, or_assoc]

/-- White space stands in no word. -/
theorem isBlank_of_isWordChar {c : Char} (h : isWordChar c = true) : isBlank c = false := by
  rw [isWordChar_iff] at h
  rw [← Bool.not_eq_true]
  simp only [isBlank, Bool.or_eq_true, Bool.and_eq_true, decide_eq_true_eq, beq_iff_eq]
  omega

/-- White space is taken away up to the first word. -/
theorem trimStart_append_word {w name : Text} (hw : allBlank w = true)
    (hname : name.all isWordChar = true) (hne : name ≠ []) (t : Text) :
    trimStart (w ++ (name ++ t)) = name ++ t := by
  obtain ⟨c, name, rfl⟩ := List.exists_cons_of_ne_nil hne
  have hc := isBlank_of_isWordChar (List.all_eq_true.1 hname c List.mem_cons_self)
  exact trimStart_append_cons hw hc (name ++ t)

/-- A word has no white space at its end. -/
theorem trimEnd_eq_of_word {name : Text} (hname : name.all isWordChar = true) :
    trimEnd name = name := by
  refine List.rdropWhile_eq_self_iff.2 fun hne => ?_
  rw [isBlank_of_isWordChar (List.all_eq_true.1 hname _ (List.getLast_mem hne))]
  exact Bool.false_ne_true

/-- The case of a letter makes no difference to what a word is. -/
theorem isWordChar_toLower (c : Char) : isWordChar c.toLower = isWordChar c := by
  by_cases hupper : c.val ≥ 'A'.val ∧ c.val ≤ 'Z'.val
  · have hlow : 65 ≤ c.toNat := UInt32.le_iff_toNat_le.1 hupper.1
    have hhigh : c.toNat ≤ 90 := UInt32.le_iff_toNat_le.1 hupper.2
    have hval : c.toLower.val = c.val + 32 := congrArg Char.val (dif_pos hupper)
    have hcode : c.toLower.toNat = c.toNat + 32 := by
      show c.toLower.val.toNat = c.val.toNat + 32
      rw [hval, UInt32.toNat_add]
      exact Nat.mod_eq_of_lt (Nat.lt_of_le_of_lt (Nat.add_le_add_right hhigh 32) (by decide))
    rw [Bool.eq_iff_iff, isWordChar_iff, isWordChar_iff, hcode]
    omega
  · have hsame : c.toLower = c := dif_neg hupper
    rw [hsame]

/-- No word character comes next. -/
def StopsWord (t : Text) : Prop := ∀ c ∈ t.head?, isWordChar c = false

theorem stopsWord_nil : StopsWord [] := by
  rintro _ ⟨⟩

theorem stopsWord_cons {c : Char} (h : isWordChar c = false) (t : Text) : StopsWord (c :: t) := by
  rintro _ ⟨⟩
  exact h

/-- A word ends where white space starts. -/
theorem stopsWord_append {w : Text} (hw : allBlank w = true) (hne : w ≠ []) (t : Text) :
    StopsWord (w ++ t) := by
  cases w with
  | nil => exact absurd rfl hne
  | cons c w =>
    refine stopsWord_cons ?_ (w ++ t)
    by_contra hc
    have hblank := isBlank_of_isWordChar (eq_true_of_ne_false hc)
    rw [List.all_eq_true.1 hw c List.mem_cons_self] at hblank
    cases hblank

/-- White space makes no word longer. -/
theorem StopsWord.append {w t : Text} (hw : allBlank w = true) (ht : StopsWord t) :
    StopsWord (w ++ t) := by
  by_cases hne : w = []
  · rw [hne]
    exact ht
  · exact stopsWord_append hw hne t

/-- A start of what makes no word longer makes none longer. -/
theorem StopsWord.of_prefix {s t : Text} (h : s <+: t) (ht : StopsWord t) : StopsWord s := by
  obtain ⟨u, rfl⟩ := h
  cases s with
  | nil => nofun
  | cons c s => exact ht

/-- A word is read to its end. -/
theorem splitWord_append {name t : Text} (hname : name.all isWordChar = true) (ht : StopsWord t) :
    splitWord (name ++ t) = (name, t) := by
  obtain ⟨htake, hdrop⟩ := splitRun_append (List.all_eq_true.1 hname) ht
  rw [splitWord, htake, hdrop]

/-- Digits are read to their end. -/
theorem splitDigits_append {w t : Text} (hw : w.all Char.isDigit = true)
    (ht : ∀ c ∈ t.head?, c.isDigit = false) :
    (w ++ t).takeWhile Char.isDigit = w ∧ (w ++ t).dropWhile Char.isDigit = t :=
  splitRun_append (List.all_eq_true.1 hw) ht

end Stencil.Text
