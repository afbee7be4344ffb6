import Stencil.Text.CodeUnit

/-!
# String literals

A string literal stands between two equal quotes.  Its end is the first such quote that no backslash
stands before, and its content may use escapes: a backslash before a quote, a slash, a backslash or
one of the letters `n`, `r`, `t`, or `\u` and four hexadecimal digits.

## Main Definitions

* `StringLiteral.split?` — the raw content of a literal and what follows it
* `StringLiteral.unescape?` — the content that a raw content stands for
-/

namespace Stencil.StringLiteral

/-- The raw content of a literal after its opening quote, whether it holds a backslash, and what
follows its closing quote. -/
def split? (quote : Char) : Text → Option (Text × Bool × Text)
  | [] => none
  | c :: t =>
    if c = '\\' then
      match t with
      | [] => none
      | d :: t => (split? quote t).map fun (raw, _, rest) => (c :: d :: raw, true, rest)
    else if c = quote then some ([], false, t)
    else (split? quote t).map fun (raw, escaped, rest) => (c :: raw, escaped, rest)

/-- The quotes and at least nothing between them are taken away. -/
theorem length_of_split? {quote : Char} {t raw rest : Text} {escaped : Bool}
    (h : split? quote t = some (raw, escaped, rest)) : rest.length < t.length := by
  fun_induction split? quote t generalizing raw escaped with
  | case1 => cases h
  | case2 => cases h
  | case3 d t ih =>
    obtain ⟨⟨raw', escaped', rest'⟩, hs, he⟩ := Option.map_eq_some_iff.1 h
    obtain ⟨rfl, rfl, rfl⟩ := by simpa using he
    have := ih hs
    simp only [List.length_cons]; omega
  | case4 =>
    obtain ⟨_, _, rfl⟩ := by simpa using h
    simp
  | case5 c t _ _ ih =>
    obtain ⟨⟨raw', escaped', rest'⟩, hs, he⟩ := Option.map_eq_some_iff.1 h
    obtain ⟨rfl, rfl, rfl⟩ := by simpa using he
    have := ih hs
    simp only [List.length_cons]; omega

/-- The character that an escape names by a single character. -/
def namedEscape? (c : Char) : Option Char :=
  if c = '"' ∨ c = '\\' ∨ c = '/' ∨ c = '\'' then some c
  else if c = 'n' then some '\n'
  else if c = 'r' then some '\r'
  else if c = 't' then some '\t'
  else none

/-- The code unit that four characters name: hexadecimal digits, of which a plus sign may replace
the first. -/
def unit? (a b c d : Char) : Option Nat :=
  if a = '+' then Text.hexValue? [b, c, d] else Text.hexValue? [a, b, c, d]

/-- The content that the rest of a raw content stands for, after a high surrogate that waits for
its other half or after none. -/
def unescapeAfter? (pending : Option Nat) : Text → Option Text
  | [] => if pending = none then some [] else none
  | '\\' :: 'u' :: a :: b :: c :: d :: t =>
    match unit? a b c d with
    | none => none
    | some unit =>
      match pending, Text.isSurrogate unit with
      | none, false => (unescapeAfter? none t).map (Char.ofNat unit :: ·)
      | some _, false => none
      | none, true => unescapeAfter? (some unit) t
      | some high, true =>
        if Text.isHighSurrogate high && Text.isLowSurrogate unit then
          (unescapeAfter? none t).map (Text.ofSurrogates high unit :: ·)
        else none
  | '\\' :: c :: t =>
    match pending, namedEscape? c with
    | none, some d => (unescapeAfter? none t).map (d :: ·)
    | _, _ => none
  | c :: t =>
    if pending = none ∧ c ≠ '\\' then (unescapeAfter? none t).map (c :: ·) else none

/-- The content that a raw content stands for, if all its escapes name characters. -/
def unescape? (raw : Text) : Option Text := unescapeAfter? none raw

end Stencil.StringLiteral
