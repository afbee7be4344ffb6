/-!
# Text

All text of the library is a list of characters: the scanners below take it apart from the left,
and every law about them is an induction over it.

## Main Definitions

* `Text.dropStart?` — what follows a given start
* `Text.splitAt?` — the two sides of the leftmost occurrence of a pattern
* `Text.splitDot`, `Text.segments` — the dotted pieces of a key path
* `Text.lines` — the lines of a text, each without its terminator
-/

namespace Stencil

/-- A text is the list of its characters. -/
abbrev Text := List Char

namespace Text

/-- What is left of a text after the given start; nothing if it starts differently. -/
def dropStart? : Text → Text → Option Text
  | [], t => some t
  | _ :: _, [] => none
  | c :: start, d :: t => if c = d then dropStart? start t else none

/-- A text starts with `start` exactly when it is `start` followed by what is left. -/
theorem dropStart?_eq_some_iff {start t rest : Text} :
    dropStart? start t = some rest ↔ t = start ++ rest := by
  induction start generalizing t with
  | nil => simp [dropStart?]
  | cons c start ih =>
    cases t with
    | nil => simp [dropStart?]
    | cons d t =>
      by_cases h : c = d
      · subst h; simp [dropStart?, ih]
      · simp [dropStart?, h, Ne.symm h]

/-- Behind two characters less of a text is left. -/
theorem length_lt_cons_cons (c d : Char) (t : Text) : t.length < (c :: d :: t).length :=
  Nat.lt_succ_of_lt (Nat.lt_succ_self _)

/-- The text before and after the leftmost occurrence of `pattern`. -/
def splitAt? (pattern : Text) (t : Text) : Option (Text × Text) :=
  match dropStart? pattern t with
  | some rest => some ([], rest)
  | none =>
    match t with
    | [] => none
    | c :: t => (splitAt? pattern t).map fun (before, after) => (c :: before, after)

/-- The two sides with the pattern between them are the whole text. -/
theorem eq_of_splitAt? {pattern t before after : Text}
    (h : splitAt? pattern t = some (before, after)) : t = before ++ pattern ++ after := by
  induction t generalizing before with
  | nil =>
    unfold splitAt? at h
    split at h
    · next rest hd =>
      obtain ⟨rfl, rfl⟩ := Prod.mk.inj (Option.some.inj h)
      simpa using dropStart?_eq_some_iff.1 hd
    · cases h
  | cons c t ih =>
    unfold splitAt? at h
    split at h
    · next rest hd =>
      obtain ⟨rfl, rfl⟩ := Prod.mk.inj (Option.some.inj h)
      simpa using dropStart?_eq_some_iff.1 hd
    · obtain ⟨⟨b, a⟩, hs, he⟩ := Option.map_eq_some_iff.1 h
      obtain ⟨rfl, rfl⟩ := Prod.mk.inj he
      simp [ih hs]

/-- Whether `start` is the beginning of `t`. -/
def startsWith (t start : Text) : Bool := (dropStart? start t).isSome

/-- Whether `tail` is the end of `t`. -/
def endsWith (t tail : Text) : Bool := startsWith t.reverse tail.reverse

/-- Whether `part` occurs somewhere in `t`. -/
def includes (t part : Text) : Bool := (splitAt? part t).isSome

/-- The part of a key path before its first dot, and the part after it if there is a dot. -/
def splitDot : Text → Text × Option Text
  | [] => ([], none)
  | c :: t =>
    if c = '.' then ([], some t)
    else ((c :: (splitDot t).1), (splitDot t).2)

/-- All pieces of a key path, in order; a path without a dot is its own only piece. -/
def segments : Text → List Text
  | [] => [[]]
  | c :: t =>
    if c = '.' then [] :: segments t
    else
      match segments t with
      | [] => [[c]]
      | s :: rest => (c :: s) :: rest

/-- The first piece is the part before the first dot, the others are those of the part after it. -/
theorem segments_eq (t : Text) :
    segments t =
      match splitDot t with
      | (head, none) => [head]
      | (head, some rest) => head :: segments rest := by
  induction t with
  | nil => rfl
  | cons c t ih =>
    by_cases hc : c = '.'
    · simp [segments, splitDot, hc]
    · rw [segments, if_neg hc, ih, splitDot, if_neg hc]
      rcases splitDot t with ⟨head, _ | rest⟩ <;> rfl

/-- A path without a dot has nothing behind its first piece. -/
theorem splitDot_of_not_mem {t : Text} (h : '.' ∉ t) : splitDot t = (t, none) := by
  induction t with
  | nil => rfl
  | cons c t ih =>
    have hc : c ≠ '.' := fun hc => h (hc ▸ List.mem_cons_self)
    rw [splitDot, if_neg hc, ih fun hmem => h (List.mem_cons_of_mem c hmem)]

/-- A path with nothing behind its first piece is this piece. -/
theorem eq_of_splitDot {t name : Text} (h : splitDot t = (name, none)) : name = t := by
  induction t generalizing name with
  | nil => exact (Prod.mk.inj h).1.symm
  | cons c t ih =>
    rw [splitDot] at h
    split at h
    · cases h
    · obtain ⟨rfl, hrest⟩ := Prod.mk.inj h
      exact congrArg (c :: ·) (ih (Prod.ext rfl hrest))

/-- A path with another one behind a dot: what stands before its first dot, and the rest with the
other path behind it. -/
theorem splitDot_append_dot (p q : Text) :
    splitDot (p ++ '.' :: q) =
      ((splitDot p).1, some ((splitDot p).2.elim q fun rest => rest ++ '.' :: q)) := by
  induction p with
  | nil => rfl
  | cons c p ih =>
    rw [List.cons_append, splitDot, splitDot]
    split
    · rfl
    · rw [ih]

theorem segments_ne_nil (t : Text) : segments t ≠ [] := by
  cases t with
  | nil => exact List.cons_ne_nil _ _
  | cons c t =>
    unfold segments
    split
    · exact List.cons_ne_nil _ _
    · split <;> exact List.cons_ne_nil _ _

/-- Two paths with a dot between them have the pieces of both. -/
theorem segments_append_dot (p q : Text) :
    segments (p ++ '.' :: q) = segments p ++ segments q := by
  induction p with
  | nil => simp [segments]
  | cons c p ih =>
    rw [List.cons_append, segments, segments, ih]
    split
    · rfl
    · obtain ⟨s, rest, hs⟩ := List.exists_cons_of_ne_nil (segments_ne_nil p)
      rw [hs]
      rfl

/-- The index that a piece of a key path stands for: a decimal numeral, after an optional plus. -/
def index? (t : Text) : Option Nat :=
  let digits := match t with
    | '+' :: rest => rest
    | t => t
  if digits ≠ [] ∧ digits.all Char.isDigit then some (Nat.ofDigitChars 10 digits 0) else none

/-- The pieces between line feeds, the last one only if it holds something. -/
def linesFrom (line : Text) : Text → List Text
  | [] => if line = [] then [] else [line.reverse]
  | '\n' :: t => endLine line :: linesFrom [] t
  | c :: t => linesFrom (c :: line) t
where
  /-- A carriage return before the line feed belongs to the terminator. -/
  endLine : Text → Text
    | '\r' :: line => line.reverse
    | line => line.reverse

/-- The lines of a text, each without its terminator: a line feed, with the carriage return before
it if there is one.  The last line needs no terminator and keeps a final carriage return. -/
def lines (t : Text) : List Text := linesFrom [] t

/-- The number of bytes of the text in UTF-8. -/
def byteSize : Text → Nat
  | [] => 0
  | c :: t => c.utf8Size + byteSize t

@[simp] theorem byteSize_nil : byteSize [] = 0 := rfl

@[simp] theorem byteSize_cons (c : Char) (t : Text) :
    byteSize (c :: t) = c.utf8Size + byteSize t := rfl

@[simp] theorem byteSize_append (s t : Text) : byteSize (s ++ t) = byteSize s + byteSize t := by
  induction s with
  | nil => simp
  | cons c s ih => simp [ih, Nat.add_assoc]

/-- The bytes of the text in UTF-8. -/
def bytes (t : Text) : List UInt8 := t.flatMap String.utf8EncodeChar

@[simp] theorem bytes_append (s t : Text) : bytes (s ++ t) = bytes s ++ bytes t :=
  List.flatMap_append

@[simp] theorem length_bytes (t : Text) : (bytes t).length = byteSize t := by
  induction t with
  | nil => rfl
  | cons c t ih =>
    rw [bytes, List.flatMap_cons, List.length_append, String.length_utf8EncodeChar, byteSize_cons]
    exact congrArg (c.utf8Size + ·) ih

/-- Of two different texts one comes before the other. -/
theorem lt_or_gt_of_ne {s t : Text} (h : s ≠ t) : s < t ∨ t < s := by
  by_cases hst : s < t
  · exact .inl hst
  · by_cases hts : t < s
    · exact .inr hts
    · exact absurd (List.le_antisymm (List.not_lt.1 hts) (List.not_lt.1 hst)) h

/-- Upper case letters of the Latin alphabet become lower case, all else stays. -/
def lower (t : Text) : Text := t.map Char.toLower

/-- Whether two texts are the same up to the case of Latin letters. -/
def sameWord (t u : Text) : Bool := lower t == lower u

end Text

end Stencil
