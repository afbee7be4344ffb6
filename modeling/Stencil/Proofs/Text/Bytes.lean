import Stencil.Proofs.Text.Occurrence

/-!
# Searching bytes

What is a list of characters here is an array of bytes elsewhere, and a pattern is searched there
byte by byte.  That makes no difference: the bytes of a pattern occur where the pattern occurs, and
nowhere else.  They cannot occur inside a character, since a pattern starts with the first byte of a
character and such a byte continues none; and where they start with a character, they agree with it
to its end, since the bytes of no character are a start of those of another.

So the index that a search for bytes finds is the number of bytes in front of the leftmost
occurrence of the pattern (`findBytes?_bytes`), and a cut at this index falls between two
characters.

## Main Definitions

* `Text.findBytes?` — the index of the leftmost occurrence of some bytes among others
-/

namespace Stencil.Text

/-- The index of the leftmost occurrence of the wanted bytes. -/
def findBytes? (wanted : List UInt8) : List UInt8 → Option Nat
  | [] => if wanted.isPrefixOf [] then some 0 else none
  | b :: bytes =>
    if wanted.isPrefixOf (b :: bytes) then some 0 else (findBytes? wanted bytes).map (· + 1)

/-! ## The bytes of a character -/

/-- The bytes of a character are one that starts a character, and behind it bytes that do not. -/
theorem exists_utf8EncodeChar (c : Char) :
    ∃ b rest, String.utf8EncodeChar c = b :: rest ∧ b.IsUTF8FirstByte ∧
      ∀ d ∈ rest, ¬ d.IsUTF8FirstByte := by
  have hfirst : ∀ i (h : i < (String.utf8EncodeChar c).length),
      (String.utf8EncodeChar c)[i].IsUTF8FirstByte ↔ i = 0 := fun _ _ =>
    UInt8.isUTF8FirstByte_getElem_utf8EncodeChar
  have hlength : (String.utf8EncodeChar c).length = c.utf8Size := String.length_utf8EncodeChar c
  generalize String.utf8EncodeChar c = bytes at hfirst hlength
  cases bytes with
  | nil => exact absurd hlength (Nat.ne_of_lt c.utf8Size_pos)
  | cons b rest =>
    refine ⟨b, rest, rfl, (hfirst 0 (Nat.succ_pos _)).2 rfl, ?_⟩
    intro d hd
    obtain ⟨i, hi, rfl⟩ := List.getElem_of_mem hd
    exact fun h => Nat.succ_ne_zero i ((hfirst (i + 1) (Nat.succ_lt_succ hi)).1 h)

/-- Two characters with the same bytes in front of whatever comes behind are the same. -/
theorem eq_of_utf8EncodeChar_append {c d : Char} {s t : List UInt8}
    (h : String.utf8EncodeChar c ++ s = String.utf8EncodeChar d ++ t) : c = d := by
  have hdecode : ∀ (c : Char) (s : List UInt8),
      (String.utf8EncodeChar c ++ s).toByteArray.utf8DecodeChar? 0 = some c := by
    intro c s
    rw [List.toByteArray_append]
    exact ByteArray.utf8DecodeChar?_utf8EncodeChar_append
  have hc := hdecode c s
  rw [h, hdecode d t] at hc
  exact (Option.some.inj hc).symm

/-! ## The bytes of a text -/

theorem bytes_cons (c : Char) (t : Text) : bytes (c :: t) = String.utf8EncodeChar c ++ bytes t :=
  List.flatMap_cons

/-- The bytes of a text start with those of another exactly if the text starts with it. -/
theorem isPrefix_bytes_iff {s t : Text} : bytes s <+: bytes t ↔ s <+: t := by
  constructor
  · intro h
    induction s generalizing t with
    | nil => exact List.nil_prefix
    | cons c s ih =>
      obtain ⟨rest, hrest⟩ := h
      rw [bytes_cons, List.append_assoc] at hrest
      cases t with
      | nil =>
        obtain ⟨b, more, hc, -⟩ := exists_utf8EncodeChar c
        rw [hc] at hrest
        cases hrest
      | cons d t =>
        rw [bytes_cons] at hrest
        obtain rfl := eq_of_utf8EncodeChar_append hrest
        exact List.cons_prefix_cons.2 ⟨rfl, ih ⟨rest, List.append_cancel_left hrest⟩⟩
  · rintro ⟨rest, rfl⟩
    exact ⟨bytes rest, (bytes_append s rest).symm⟩

theorem length_le_byteSize (t : Text) : t.length ≤ byteSize t := by
  induction t with
  | nil => exact Nat.le_refl _
  | cons c t ih =>
    have hpos := c.utf8Size_pos
    rw [List.length_cons, byteSize_cons]
    omega

/-! ## The search -/

theorem findBytes?_of_isPrefix {wanted bytes : List UInt8} (h : wanted <+: bytes) :
    findBytes? wanted bytes = some 0 := by
  have hstarts := List.isPrefixOf_iff_prefix.2 h
  cases bytes with
  | nil => exact if_pos hstarts
  | cons b bytes => exact if_pos hstarts

/-- Bytes that start no character are passed over. -/
theorem findBytes?_append {b : UInt8} {wanted inside : List UInt8} (hb : b.IsUTF8FirstByte)
    (hinside : ∀ d ∈ inside, ¬ d.IsUTF8FirstByte) (bytes : List UInt8) :
    findBytes? (b :: wanted) (inside ++ bytes) =
      (findBytes? (b :: wanted) bytes).map (· + inside.length) := by
  induction inside with
  | nil => simp
  | cons d inside ih =>
    have hne : b ≠ d := by
      rintro rfl
      exact hinside b List.mem_cons_self hb
    have hnot : List.isPrefixOf (b :: wanted) (d :: (inside ++ bytes)) = false := by
      rw [List.isPrefixOf, beq_false_of_ne hne, Bool.false_and]
    rw [List.cons_append, findBytes?, hnot, if_neg Bool.false_ne_true,
      ih fun e he => hinside e (.tail _ he), Option.map_map, List.length_cons]
    rfl

variable {pattern : Text}

/-- A pattern starts with the first byte of a character. -/
theorem exists_bytes_of_ne_nil (hne : pattern ≠ []) :
    ∃ b wanted, bytes pattern = b :: wanted ∧ b.IsUTF8FirstByte := by
  obtain ⟨c, pattern, rfl⟩ := List.exists_cons_of_ne_nil hne
  obtain ⟨b, inside, hc, hb, -⟩ := exists_utf8EncodeChar c
  exact ⟨b, inside ++ bytes pattern, by rw [bytes_cons, hc, List.cons_append], hb⟩

/-- A character that does not start the pattern is passed over with all its bytes. -/
theorem findBytes?_bytes_cons (hne : pattern ≠ []) {c : Char} {t : Text}
    (hnot : ¬ pattern <+: c :: t) :
    findBytes? (bytes pattern) (bytes (c :: t)) =
      (findBytes? (bytes pattern) (bytes t)).map (· + c.utf8Size) := by
  obtain ⟨b, wanted, hpattern, hb⟩ := exists_bytes_of_ne_nil hne
  obtain ⟨d, inside, hc, -, hinside⟩ := exists_utf8EncodeChar c
  have hsize : inside.length + 1 = c.utf8Size := by
    rw [← String.length_utf8EncodeChar, hc, List.length_cons]
  have hstarts : (bytes pattern).isPrefixOf (bytes (c :: t)) = false := by
    rw [← Bool.not_eq_true, List.isPrefixOf_iff_prefix, isPrefix_bytes_iff]
    exact hnot
  rw [hpattern, bytes_cons, hc, List.cons_append] at hstarts ⊢
  rw [findBytes?, hstarts, if_neg Bool.false_ne_true, findBytes?_append hb hinside,
    Option.map_map, ← hsize]
  rfl

/-- **A search for bytes finds characters**: the index of the leftmost occurrence of the bytes of a
pattern is the number of bytes in front of the leftmost occurrence of the pattern. -/
theorem findBytes?_bytes (hne : pattern ≠ []) (t : Text) :
    findBytes? (bytes pattern) (bytes t) =
      (splitAt? pattern t).map fun parts => byteSize parts.1 := by
  induction t with
  | nil =>
    obtain ⟨b, wanted, hpattern, -⟩ := exists_bytes_of_ne_nil hne
    have hnone : splitAt? pattern [] = none :=
      splitAt?_eq_none_iff.2 fun h => hne (List.infix_nil.1 h)
    rw [hnone, hpattern]
    rfl
  | cons c t ih =>
    by_cases hstart : pattern <+: c :: t
    · obtain ⟨after, hafter⟩ := hstart
      have hsplit : splitAt? pattern (c :: t) = some ([], after) :=
        splitAt?_eq_some_iff.2 ⟨hafter.symm, firstAt_nil ⟨after, hafter⟩⟩
      rw [findBytes?_of_isPrefix (isPrefix_bytes_iff.2 ⟨after, hafter⟩), hsplit]
      rfl
    · rw [findBytes?_bytes_cons hne hstart, ih, splitAt?, dropStart?_eq_none_iff.2 hstart,
        Option.map_map, Option.map_map]
      refine congrFun (congrArg Option.map (funext fun parts => ?_)) _
      exact Nat.add_comm _ _

end Stencil.Text
