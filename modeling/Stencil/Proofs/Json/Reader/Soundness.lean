import Stencil.Proofs.Json.Reader.Numerals
import Stencil.Proofs.Json.Reader.Strings

/-!
# The strict reader reads JSON text

What the strict reader takes from the start of a text is written there by the grammar, and what it
makes of a numeral does not depend on where the numeral stands.  So the library of the reader is one
that reads JSON text (`Library.reads_strict`).

The induction is on the length of the text, because the reader goes back and forth between values
and the parts of arrays and objects.

## Main Definitions

* `Json.ReadsValue`, `Json.ReadsItems`, `Json.ReadsMembers` — what is read from a text is written
  there
-/

namespace Stencil.Json

open Strict

variable {depth : Nat} {c : Char} {t rest : Text} {j : Json}

/-! ## Words -/

theorem exists_of_word? (h : word? t = some (j, rest)) :
    ∃ word, (word, j) ∈ words ∧ t = word ++ rest := by
  have hstart : ∀ {start : Text} {j' : Json}, (start, j') ∈ words →
      (Text.dropStart? start t).map (j', ·) = some (j, rest) →
      ∃ word, (word, j) ∈ words ∧ t = word ++ rest := by
    intro start j' hmem h
    obtain ⟨rest', hrest, heq⟩ := Option.map_eq_some_iff.1 h
    obtain ⟨rfl, rfl⟩ := Prod.mk.inj heq
    exact ⟨start, hmem, Text.dropStart?_eq_some_iff.1 hrest⟩
  rw [word?, Option.or_eq_some_iff, Option.or_eq_some_iff] at h
  rcases h with h | ⟨-, h | ⟨-, h⟩⟩
  · exact hstart (.head _) h
  · exact hstart (.tail _ (.head _)) h
  · exact hstart (.tail _ (.tail _ (.head _))) h

theorem word?_eq_none (hc : c ≠ 'n' ∧ c ≠ 't' ∧ c ≠ 'f') (t : Text) : word? (c :: t) = none := by
  cases hword : word? (c :: t) with
  | none => rfl
  | some r =>
    obtain ⟨word, hmem, heq⟩ := exists_of_word? hword
    rcases words_cases hmem with ⟨rfl, -⟩ | ⟨rfl, -⟩ | ⟨rfl, -⟩
    · exact absurd (List.cons.inj heq).1 hc.1
    · exact absurd (List.cons.inj heq).1 hc.2.1
    · exact absurd (List.cons.inj heq).1 hc.2.2

/-! ## Numerals -/

section Numeral

variable {whole fraction d : Text} {exponent : Option Int}

/-- A whole text that the reader of numerals takes to its end. -/
theorem ofText?_of_readNumeral? {x : Option Json} (hspace : isSpace c = false)
    (hc : c ≠ '"' ∧ c ≠ '[' ∧ c ≠ '\x7b') (hword : c ≠ 'n' ∧ c ≠ 't' ∧ c ≠ 'f')
    (h : readNumeral? (c :: t) = x.map (·, [])) : ofText? (c :: t) = x := by
  have hskip : skipSpace (c :: t) = c :: t := List.dropWhile_cons_of_neg (by simp [hspace])
  rw [ofText?_eq, outcome_readValue? hskip, if_neg hc.1, if_neg hc.2.1, if_neg hc.2.2,
    word?_eq_none hword, h]
  cases x <;> rfl

theorem isDigit_ne (hc : c.isDigit = true) {d : Char} (hd : d.isDigit = false) : c ≠ d := by
  rintro rfl
  rw [hc] at hd
  cases hd

/-- A numeral alone is read as the value of its parts. -/
theorem ofText?_numeral (h : NumeralBy whole fraction exponent d) :
    ofText? d = numeralOf? false whole fraction exponent := by
  have hread := @readUnsigned?_append false [] _ _ _ _ h nofun
  rw [List.append_nil] at hread
  obtain ⟨c, rest, rfl, hc⟩ := h.exists_digit
  have hne : ∀ {d : Char}, d.isDigit = false → c ≠ d := isDigit_ne hc
  have hspace : isSpace c = false := by
    simp only [isSpace, Bool.or_eq_false_iff, beq_eq_false_iff_ne]
    exact ⟨⟨⟨hne rfl, hne rfl⟩, hne rfl⟩, hne rfl⟩
  have hminus : (c :: rest).head? ≠ some '-' := fun heq => hne rfl (Option.some.inj heq)
  refine ofText?_of_readNumeral? hspace ⟨hne rfl, hne rfl, hne rfl⟩ ⟨hne rfl, hne rfl, hne rfl⟩ ?_
  exact (readNumeral?_unsigned hminus).trans hread

/-- A numeral alone with a minus sign is read as the value of its parts. -/
theorem ofText?_minus (h : NumeralBy whole fraction exponent d) :
    ofText? ('-' :: d) = numeralOf? true whole fraction exponent := by
  have hread := @readUnsigned?_append true [] _ _ _ _ h nofun
  rw [List.append_nil] at hread
  refine ofText?_of_readNumeral? (by decide) (by decide) (by decide) ?_
  exact (readNumeral?_minus d).trans hread

/-- What is read as a numeral is one. -/
theorem exists_of_readNumeral? (h : readNumeral? t = some (j, rest)) :
    ∃ core, t = core ++ rest ∧ ValueBy j core := by
  by_cases hminus : t.head? = some '-'
  · obtain ⟨u, rfl⟩ := List.head?_eq_some_iff.1 hminus
    rw [readNumeral?_minus] at h
    obtain ⟨whole, fraction, exponent, d, hd, hj, rfl⟩ := exists_of_readUnsigned? h
    exact ⟨'-' :: d, rfl, .negative hd ((ofText?_minus hd).trans hj)⟩
  · rw [readNumeral?_unsigned hminus] at h
    obtain ⟨whole, fraction, exponent, d, hd, hj, rfl⟩ := exists_of_readUnsigned? h
    exact ⟨d, rfl, .numeral hd ((ofText?_numeral hd).trans hj)⟩

end Numeral

/-! ## Values -/

/-- What is read as a value at the start of a text is written there, behind white space. -/
def ReadsValue (t : Text) : Prop :=
  ∀ {depth j rest}, outcome (readValue? depth t) = some (j, rest) →
    ∃ w core, w.all isSpace = true ∧ t = w ++ (core ++ rest) ∧ ValueBy j core

/-- What is read as the items of an array is written at the start of a text. -/
def ReadsItems (t : Text) : Prop :=
  ∀ {depth items rest}, items? depth t = some (items, rest) →
    ∃ u, t = u ++ ']' :: rest ∧ ItemsBy items u

/-- What is read as the members of an object is written at the start of a text. -/
def ReadsMembers (t : Text) : Prop :=
  ∀ {depth members rest}, members? depth t = some (members, rest) →
    ∃ u, t = u ++ '\x7d' :: rest ∧ MembersBy members u

theorem readsItems_of_below (hvalue : ReadsValue t)
    (h : ∀ u, u.length < t.length → ReadsItems u) : ReadsItems t := by
  intro depth items rest hread
  rw [items?_eq, Option.bind_eq_some_iff] at hread
  obtain ⟨⟨item, behind⟩, hitem, hread⟩ := hread
  obtain ⟨w, core, hw, rfl, hby⟩ := hvalue hitem
  obtain ⟨w', hw', heq⟩ := exists_skipSpace behind
  have hspaced : Spaced core (w ++ (core ++ w')) := ⟨w, w', hw, hw', rfl⟩
  rcases cases_of_behindPart? hread with ⟨after, others, hskip, hafter, rfl⟩ | ⟨hskip, rfl⟩
  · rw [hskip] at heq
    subst heq
    have hlt : after.length < (w ++ (core ++ (w' ++ ',' :: after))).length := by
      simp only [List.length_append, List.length_cons]
      omega
    obtain ⟨u, rfl, hitems⟩ := h after hlt hafter
    exact ⟨_, by simp only [List.append_assoc, List.cons_append], .cons hby hspaced hitems⟩
  · rw [hskip] at heq
    subst heq
    exact ⟨_, by simp only [List.append_assoc], .last hby hspaced⟩

theorem readsMembers_of_below (hvalue : ∀ u, u.length < t.length → ReadsValue u)
    (h : ∀ u, u.length < t.length → ReadsMembers u) : ReadsMembers t := by
  intro depth members rest hread
  rw [members?_eq, Option.bind_eq_some_iff] at hread
  obtain ⟨⟨name, behindName⟩, hname, hread⟩ := hread
  obtain ⟨quoted, afterName, hquoted, hchars, hcolon⟩ := exists_of_memberName? hname
  obtain ⟨q, hstring, hq⟩ := stringBy_of_readChars? hchars
  obtain ⟨w, hw, ht⟩ := exists_skipSpace t
  obtain ⟨w', hw', hafterName⟩ := exists_skipSpace afterName
  rw [hcolon] at hafterName
  rw [hquoted, hq, hafterName] at ht
  subst ht
  have hspacedName : Spaced q (w ++ (q ++ w')) := ⟨w, w', hw, hw', rfl⟩
  dsimp only at hread
  rw [Option.bind_eq_some_iff] at hread
  obtain ⟨⟨item, behind⟩, hitem, hread⟩ := hread
  have hlt : behindName.length < (w ++ (q ++ (w' ++ ':' :: behindName))).length := by
    simp only [List.length_append, List.length_cons]
    omega
  obtain ⟨v, core, hv, rfl, hby⟩ := hvalue behindName hlt hitem
  obtain ⟨v', hv', heq⟩ := exists_skipSpace behind
  have hspaced : Spaced core (v ++ (core ++ v')) := ⟨v, v', hv, hv', rfl⟩
  rcases cases_of_behindPart? hread with ⟨after, others, hskip, hafter, rfl⟩ | ⟨hskip, rfl⟩
  · rw [hskip] at heq
    subst heq
    have hlt : after.length <
        (w ++ (q ++ (w' ++ ':' :: (v ++ (core ++ (v' ++ ',' :: after)))))).length := by
      simp only [List.length_append, List.length_cons]
      omega
    obtain ⟨u, rfl, hmembers⟩ := h after hlt hafter
    exact ⟨_, by simp only [List.append_assoc, List.cons_append],
      .cons hstring hspacedName hby hspaced hmembers⟩
  · rw [hskip] at heq
    subst heq
    exact ⟨_, by simp only [List.append_assoc, List.cons_append],
      .last hstring hspacedName hby hspaced⟩

/-- What is read behind an opening bracket is written there: white space or parts. -/
theorem cases_of_behindOpen? {α : Type} {close : Char} {read : Text → Option (List α × Text)}
    {whole : List α → Json} (h : behindOpen? close read whole t = some (j, rest)) :
    (∃ w, w.all isSpace = true ∧ t = w ++ close :: rest ∧ j = whole []) ∨
      ∃ parts, read t = some (parts, rest) ∧ j = whole parts := by
  by_cases hclose : ∃ after, skipSpace t = close :: after
  · obtain ⟨after, hafter⟩ := hclose
    rw [behindOpen?_close hafter] at h
    obtain ⟨rfl, rfl⟩ := Prod.mk.inj (Option.some.inj h)
    obtain ⟨w, hw, heq⟩ := exists_skipSpace t
    rw [hafter] at heq
    exact .inl ⟨w, hw, heq, rfl⟩
  · rw [behindOpen?_open fun after hafter => hclose ⟨after, hafter⟩] at h
    obtain ⟨⟨parts, rest'⟩, hparts, heq⟩ := Option.map_eq_some_iff.1 h
    obtain ⟨rfl, rfl⟩ := Prod.mk.inj heq
    exact .inr ⟨parts, hparts, rfl⟩

theorem readsValue_of_below (hitems : ∀ u, u.length < t.length → ReadsItems u)
    (hmembers : ∀ u, u.length < t.length → ReadsMembers u) : ReadsValue t := by
  intro depth j rest hread
  obtain ⟨w, hw, heq⟩ := exists_skipSpace t
  suffices hcore : ∃ core, skipSpace t = core ++ rest ∧ ValueBy j core by
    obtain ⟨core, hcore, hby⟩ := hcore
    exact ⟨w, core, hw, by rw [← hcore]; exact heq, hby⟩
  cases hskip : skipSpace t with
  | nil =>
    rw [readValue?_nil hskip] at hread
    cases hread
  | cons c behind =>
    have hlt : behind.length < t.length := by
      rw [heq, hskip, List.length_append, List.length_cons]
      omega
    rw [outcome_readValue? hskip] at hread
    split_ifs at hread with hquote hbracket hdepth hbrace hdepth
    · subst hquote
      obtain ⟨⟨s, rest'⟩, hchars, heq⟩ := Option.map_eq_some_iff.1 hread
      obtain ⟨rfl, rfl⟩ := Prod.mk.inj heq
      obtain ⟨quoted, hstring, hquoted⟩ := stringBy_of_readChars? hchars
      exact ⟨quoted, hquoted, .string hstring⟩
    · subst hbracket
      rcases cases_of_behindOpen? hread with ⟨w, hw, rfl, rfl⟩ | ⟨items, hparts, rfl⟩
      · exact ⟨_, by simp, .emptyArray hw⟩
      · obtain ⟨u, rfl, hby⟩ := hitems behind hlt hparts
        exact ⟨_, by simp, .array hby⟩
    · subst hbrace
      rcases cases_of_behindOpen? hread with ⟨w, hw, rfl, rfl⟩ | ⟨members, hparts, rfl⟩
      · exact ⟨_, by simp, .emptyObject hw⟩
      · obtain ⟨u, rfl, hby⟩ := hmembers behind hlt hparts
        exact ⟨_, by simp, .object hby⟩
    · obtain ⟨hscalar, -⟩ := Option.filter_eq_some_iff.1 hread
      rcases Option.or_eq_some_iff.1 hscalar with hword | ⟨-, hnumeral⟩
      · obtain ⟨word, hmem, heq⟩ := exists_of_word? hword
        exact ⟨word, heq, .word hmem⟩
      · exact exists_of_readNumeral? hnumeral

/-- By induction on the length of the text. -/
theorem readsAll (t : Text) : ReadsValue t ∧ ReadsItems t ∧ ReadsMembers t := by
  induction hn : t.length using Nat.strongRecOn generalizing t with
  | ind n ih =>
    subst hn
    have hbelow : ∀ u : Text, u.length < t.length → ReadsValue u ∧ ReadsItems u ∧ ReadsMembers u :=
      fun u hu => ih _ hu u rfl
    have hvalue : ReadsValue t :=
      readsValue_of_below (fun u hu => (hbelow u hu).2.1) fun u hu => (hbelow u hu).2.2
    exact ⟨hvalue, readsItems_of_below hvalue fun u hu => (hbelow u hu).2.1,
      readsMembers_of_below (fun u hu => (hbelow u hu).1) fun u hu => (hbelow u hu).2.2⟩

/-- The strict library reads JSON text. -/
theorem Library.reads_strict : Library.Reads where
  written {t j} h := by
    have hread : ofText? t = some j := h
    rw [ofText?_eq, Option.bind_eq_some_iff] at hread
    obtain ⟨⟨j', rest⟩, hvalue, hend⟩ := hread
    dsimp only at hend
    split_ifs at hend with hrest
    cases hend
    obtain ⟨w, core, hw, rfl, hby⟩ := (readsAll t).1 hvalue
    obtain ⟨w', hw', heq⟩ := exists_skipSpace rest
    rw [hrest, List.append_nil] at heq
    subst heq
    exact ⟨core, ⟨w, rest, hw, hw', rfl⟩, hby⟩
  negative {whole fraction d exponent j} h hj := by
    have hminus : ofText? ('-' :: d) = some j := hj
    rw [ofText?_minus h] at hminus
    obtain ⟨j', hj', hneg⟩ := exists_of_numeralOf?_true hminus
    exact ⟨j', (ofText?_numeral h).trans hj', hneg⟩

end Stencil.Json
