import Stencil.Dict
import Stencil.Json.Numeral
import Stencil.Text.CodeUnit

/-!
# Reading JSON

A strict reader of JSON text.  Each reading step returns what it leaves over with the proof that it
is shorter, so the recursion ends with the text.  Containers may be nested to a depth of 127.

## Main Definitions

* `Json.readChars?` — the rest of a string, up to its closing quote
* `Json.readValue?` — the value at the start of a text
* `Json.ofText?` — the value that a whole text stands for
-/

namespace Stencil.Json

/-- A text without the white space at its start. -/
def skipSpace (t : Text) : Text := t.dropWhile isSpace

theorem length_skipSpace_le (t : Text) : (skipSpace t).length ≤ t.length :=
  (t.dropWhile_sublist isSpace).length_le

/-- What is left of a text, known to be shorter than it. -/
abbrev Shorter (t : Text) := { rest : Text // rest.length < t.length }

/-- What is left of a text is shorter than the text with a character more in front. -/
theorem shorter_cons {c : Char} {t rest : Text} (h : rest.length < t.length) :
    rest.length < (c :: t).length :=
  Nat.lt_succ_of_lt h

/-- What is left of what is left of a text is shorter than the text. -/
theorem shorter_trans {c : Char} {t rest last : Text} (h : rest.length < (c :: t).length)
    (h' : last.length < rest.length) : last.length < (c :: t).length :=
  Nat.lt_trans h' h

/-- The code unit of the escape at the start of a text, its four digits after `\u`. -/
def codeUnit? : (t : Text) → Option (Nat × Shorter t)
  | '\\' :: 'u' :: a :: b :: c :: d :: rest =>
    (Text.hexValue? [a, b, c, d]).map fun unit =>
      (unit, ⟨rest, by simp only [List.length_cons]; omega⟩)
  | _ => none

/-- The character that an escape names by a letter after the backslash. -/
def namedEscape? (c : Char) : Option Char :=
  if c = '"' ∨ c = '\\' ∨ c = '/' then some c
  else if c = 'b' then some '\x08'
  else if c = 'f' then some '\x0c'
  else if c = 'n' then some '\n'
  else if c = 'r' then some '\r'
  else if c = 't' then some '\t'
  else none

/-- The character that the escape at the start of a text names, and what follows.  Surrogates are
accepted in pairs only. -/
def escape? (t : Text) : Option (Char × Shorter t) :=
  match t with
  | b :: c :: rest =>
    if c ≠ 'u' then
      (namedEscape? c).map fun d => (d, ⟨rest, Text.length_lt_cons_cons b c rest⟩)
    else
      (codeUnit? (b :: c :: rest)).bind fun (unit, ⟨rest, h⟩) =>
        if Text.isHighSurrogate unit then
          (codeUnit? rest).bind fun (low, ⟨rest, h'⟩) =>
            if Text.isLowSurrogate low then
              some (Text.ofSurrogates unit low, ⟨rest, by omega⟩)
            else none
        else if Text.isLowSurrogate unit then none
        else some (Char.ofNat unit, ⟨rest, by omega⟩)
  | _ => none

/-- The characters of a string after its opening quote, and what follows its closing quote. -/
def readChars? (t : Text) : Option (Text × Shorter t) :=
  match t with
  | [] => none
  | c :: rest =>
    if c = '"' then some ([], ⟨rest, Nat.lt_succ_self _⟩)
    else if c = '\\' then
      (escape? (c :: rest)).bind fun (d, ⟨rest, h⟩) =>
        (readChars? rest).map fun (s, ⟨rest, h'⟩) => (d :: s, ⟨rest, shorter_trans h h'⟩)
    else if c.toNat < 0x20 then none
    else (readChars? rest).map fun (s, ⟨rest, h⟩) => (c :: s, ⟨rest, shorter_cons h⟩)
termination_by t.length
decreasing_by
  · exact h
  · exact Nat.lt_succ_self _

/-- The word `null`, `true` or `false` at the start of a text. -/
def word? (t : Text) : Option (Json × Text) :=
  ((Text.dropStart? "null".toList t).map (null, ·)).or <|
  ((Text.dropStart? "true".toList t).map (bool true, ·)).or <|
  (Text.dropStart? "false".toList t).map (bool false, ·)

/-- Keeps a reading step only if it took something; every step of the grammar does. -/
def shorter? {t : Text} {α : Type} : Option (α × Text) → Option (α × Shorter t)
  | some (a, rest) => if h : rest.length < t.length then some (a, ⟨rest, h⟩) else none
  | none => none

/-- The name of a member with the colon after it. -/
def memberName? (t : Text) : Option (Text × Shorter t) :=
  match t with
  | '"' :: rest =>
    (readChars? rest).bind fun (name, ⟨rest, h⟩) =>
      match h' : skipSpace rest with
      | ':' :: after =>
        have := length_skipSpace_le rest
        some (name, ⟨after, by simp only [h', List.length_cons] at *; omega⟩)
      | _ => none
  | _ => none

mutual

/-- The value at the start of a text, in containers that may be nested `depth` deep. -/
def readValue? (depth : Nat) (t : Text) : Option (Json × Shorter t) :=
  have hs := length_skipSpace_le t
  match ht : skipSpace t with
  | [] => none
  | c :: rest =>
    have hr : rest.length < t.length := by simp only [ht, List.length_cons] at hs; omega
    if c = '"' then
      (readChars? rest).map fun (s, ⟨rest, h⟩) => (string s, ⟨rest, by omega⟩)
    else if c = '[' then
      if depth = 0 then none
      else
        have hn := length_skipSpace_le rest
        match hc : skipSpace rest with
        | ']' :: after =>
          some (array [], ⟨after, by simp only [hc, List.length_cons] at hn; omega⟩)
        | _ =>
          (readItems? (depth - 1) rest).map fun (items, ⟨rest, h⟩) =>
            (array items, ⟨rest, by omega⟩)
    else if c = '\x7b' then
      if depth = 0 then none
      else
        have hn := length_skipSpace_le rest
        match hc : skipSpace rest with
        | '\x7d' :: after =>
          some (object .nil, ⟨after, by simp only [hc, List.length_cons] at hn; omega⟩)
        | _ =>
          (readMembers? (depth - 1) rest).map fun (members, ⟨rest, h⟩) =>
            (object (Dict.ofList members), ⟨rest, by omega⟩)
    else
      shorter? ((word? (c :: rest)).or (readNumeral? (c :: rest)))
termination_by (t.length, 0)

/-- The items of an array from the start of one of them, up to the closing bracket. -/
def readItems? (depth : Nat) (t : Text) : Option (List Json × Shorter t) :=
  (readValue? depth t).bind fun (item, ⟨rest, h⟩) =>
    have hs := length_skipSpace_le rest
    match hc : skipSpace rest with
    | ',' :: after =>
      have ha : after.length < t.length := by simp only [hc, List.length_cons] at hs; omega
      (readItems? depth after).map fun (items, ⟨rest, h⟩) => (item :: items, ⟨rest, by omega⟩)
    | ']' :: after => some ([item], ⟨after, by simp only [hc, List.length_cons] at hs; omega⟩)
    | _ => none
termination_by (t.length, 1)

/-- The members of an object from the start of one of them, up to the closing brace. -/
def readMembers? (depth : Nat) (t : Text) : Option (List (Text × Json) × Shorter t) :=
  have ht := length_skipSpace_le t
  (memberName? (skipSpace t)).bind fun (name, ⟨afterName, hn⟩) =>
    (readValue? depth afterName).bind fun (member, ⟨rest, h⟩) =>
      have hs := length_skipSpace_le rest
      match hc : skipSpace rest with
      | ',' :: after =>
        have ha : after.length < t.length := by simp only [hc, List.length_cons] at hs; omega
        (readMembers? depth after).map fun (members, ⟨rest, h⟩) =>
          ((name, member) :: members, ⟨rest, by omega⟩)
      | '\x7d' :: after =>
        some ([(name, member)], ⟨after, by simp only [hc, List.length_cons] at hs; omega⟩)
      | _ => none
termination_by (t.length, 1)

end

/-- How deep containers may be nested. -/
def depthLimit : Nat := 127

/-- The JSON data that a whole text stands for. -/
def ofText? (t : Text) : Option Json :=
  (readValue? depthLimit t).bind fun (j, ⟨rest, _⟩) =>
    if skipSpace rest = [] then some j else none

end Stencil.Json
