import Stencil.Json.Value
import Stencil.Number.Arithmetic
import Stencil.Proofs.Text.CodeUnit

/-!
# JSON text

How JSON data is written, said without a reader.  The grammar has one way of writing for each kind
of data, with white space around the items of arrays and around the names and values of members; it
does not say which number a numeral stands for.  That is left to the library, which takes a numeral
for the same number wherever it stands.

`Json.Library.Reads` is all that is assumed of a library about texts: it reads nothing but JSON
text, and a minus sign changes the sign.  It may refuse whatever it likes, such as arrays that are
nested too deep, and it may round numbers as it likes.

## Main Definitions

* `Json.CharBy`, `Json.StringBy`, `Json.NumeralBy` — ways of writing characters, strings and
  numerals
* `Json.ValueBy`, `Json.ItemsBy`, `Json.MembersBy` — ways of writing JSON data
* `Json.Library.Reads` — what a library does that reads JSON text
-/

namespace Stencil.Json

open Text (IsHex isHighSurrogate isLowSurrogate)

/-! ## Strings -/

/-- The escapes of one letter, each with the character that it names. -/
def escapes : List (Char × Char) :=
  [('"', '"'), ('\\', '\\'), ('/', '/'), ('b', '\x08'), ('f', '\x0c'), ('n', '\n'), ('r', '\r'),
    ('t', '\t')]

/-- Four hexadecimal digits name a code unit. -/
def UnitBy (digits : Text) (unit : Nat) : Prop := digits.length = 4 ∧ IsHex digits unit

/-- A way of writing a character in a JSON string. -/
inductive CharBy : Char → Text → Prop
  /-- As it is, unless it is a quote, a backslash or a control character. -/
  | plain {c : Char} (hquote : c ≠ '"') (hbackslash : c ≠ '\\') (hcontrol : 0x20 ≤ c.toNat) :
    CharBy c [c]
  /-- By a letter. -/
  | named {c letter : Char} (h : (letter, c) ∈ escapes) : CharBy c ['\\', letter]
  /-- By its code unit. -/
  | unit {c : Char} {digits : Text} (h : UnitBy digits c.toNat) : CharBy c ('\\' :: 'u' :: digits)
  /-- By the two halves of a pair. -/
  | pair {c : Char} {digits digits' : Text} {high low : Nat} (hhigh : UnitBy digits high)
    (hlow : UnitBy digits' low) (hpair : isHighSurrogate high ∧ isLowSurrogate low)
    (hc : c.toNat = 0x10000 + (high - 0xD800) * 0x400 + (low - 0xDC00)) :
    CharBy c ('\\' :: 'u' :: (digits ++ '\\' :: 'u' :: digits'))

/-- A way of writing a text as a JSON string: character by character between quotes. -/
def StringBy (s t : Text) : Prop :=
  ∃ pieces : List Text, List.Forall₂ CharBy s pieces ∧ t = '"' :: (pieces.flatten ++ ['"'])

/-! ## Numerals -/

/-- The digits before the point: a zero alone, or digits that start with another one. -/
def IsWhole (whole : Text) : Prop :=
  whole.all Char.isDigit = true ∧ whole ≠ [] ∧ (whole.head? = some '0' → whole = ['0'])

/-- The fraction with its point, if there is one. -/
def fractionText : Text → Text
  | [] => []
  | c :: digits => '.' :: c :: digits

/-- A way of writing an exponent, or none. -/
inductive ExponentBy : Option Int → Text → Prop
  | absent : ExponentBy none []
  | present {letter : Char} {sign digits : Text} (hletter : letter = 'e' ∨ letter = 'E')
    (hsign : sign ∈ [[], ['+'], ['-']]) (hdigits : digits.all Char.isDigit = true)
    (hne : digits ≠ []) :
    ExponentBy
      (some (if sign = ['-'] then -(Nat.ofDigitChars 10 digits 0 : Int)
        else Nat.ofDigitChars 10 digits 0))
      (letter :: (sign ++ digits))

/-- A way of writing a numeral without a sign. -/
structure NumeralBy (whole fraction : Text) (exponent : Option Int) (t : Text) : Prop where
  isWhole : IsWhole whole
  all_isDigit : fraction.all Char.isDigit = true
  exponentBy : ∃ digits, ExponentBy exponent digits ∧ t = whole ++ (fractionText fraction ++ digits)

/-! ## Values -/

/-- The words of JSON. -/
def words : List (Text × Json) :=
  [(['n', 'u', 'l', 'l'], null), (['t', 'r', 'u', 'e'], bool true),
    (['f', 'a', 'l', 's', 'e'], bool false)]

theorem words_cases {word : Text} {j : Json} (h : (word, j) ∈ words) :
    word = ['n', 'u', 'l', 'l'] ∧ j = null ∨ word = ['t', 'r', 'u', 'e'] ∧ j = bool true ∨
      word = ['f', 'a', 'l', 's', 'e'] ∧ j = bool false := by
  simpa [words] using h

/-- A text with white space around it. -/
def Spaced (core t : Text) : Prop :=
  ∃ w w' : Text, w.all isSpace = true ∧ w'.all isSpace = true ∧ t = w ++ (core ++ w')

variable [Library]

mutual

/-- A way of writing JSON data. -/
inductive ValueBy : Json → Text → Prop
  | word {word : Text} {j : Json} (h : (word, j) ∈ words) : ValueBy j word
  | string {s t : Text} (h : StringBy s t) : ValueBy (string s) t
  /-- A numeral stands for what it stands for alone. -/
  | numeral {whole fraction d : Text} {exponent : Option Int} {j : Json}
    (h : NumeralBy whole fraction exponent d) (hj : Library.read? d = some j) : ValueBy j d
  | negative {whole fraction d : Text} {exponent : Option Int} {j : Json}
    (h : NumeralBy whole fraction exponent d) (hj : Library.read? ('-' :: d) = some j) :
    ValueBy j ('-' :: d)
  | emptyArray {w : Text} (hw : w.all isSpace = true) : ValueBy (array []) ('[' :: (w ++ [']']))
  | array {items : List Json} {t : Text} (h : ItemsBy items t) :
    ValueBy (array items) ('[' :: (t ++ [']']))
  | emptyObject {w : Text} (hw : w.all isSpace = true) :
    ValueBy (object .nil) ('\x7b' :: (w ++ ['\x7d']))
  | object {members : List (Text × Json)} {t : Text} (h : MembersBy members t) :
    ValueBy (object (Dict.ofList members)) ('\x7b' :: (t ++ ['\x7d']))

/-- A way of writing the items of an array, with commas between them. -/
inductive ItemsBy : List Json → Text → Prop
  | last {j : Json} {core t : Text} (h : ValueBy j core) (ht : Spaced core t) : ItemsBy [j] t
  | cons {j : Json} {items : List Json} {core t rest : Text} (h : ValueBy j core)
    (ht : Spaced core t) (hrest : ItemsBy items rest) : ItemsBy (j :: items) (t ++ ',' :: rest)

/-- A way of writing the members of an object, with commas between them and a colon behind each
name. -/
inductive MembersBy : List (Text × Json) → Text → Prop
  | last {name quoted n core t : Text} {j : Json} (hname : StringBy name quoted)
    (hn : Spaced quoted n) (h : ValueBy j core) (ht : Spaced core t) :
    MembersBy [(name, j)] (n ++ ':' :: t)
  | cons {name quoted n core t rest : Text} {j : Json} {members : List (Text × Json)}
    (hname : StringBy name quoted) (hn : Spaced quoted n) (h : ValueBy j core)
    (ht : Spaced core t) (hrest : MembersBy members rest) :
    MembersBy ((name, j) :: members) (n ++ ':' :: (t ++ ',' :: rest))

end

/-- What a library does that reads JSON text. -/
structure Library.Reads : Prop where
  /-- What it reads is JSON text, perhaps with white space around it, and it gives the data that is
  written there. -/
  written {t : Text} {j : Json} (h : Library.read? t = some j) :
    ∃ core, Spaced core t ∧ ValueBy j core
  /-- A numeral with a minus sign is the number of the other sign. -/
  negative {whole fraction d : Text} {exponent : Option Int} {j : Json}
    (h : NumeralBy whole fraction exponent d) (hj : Library.read? ('-' :: d) = some j) :
    ∃ j', Library.read? d = some j' ∧
      ∀ x, j'.toValue = .number x → j.toValue = .number x.neg

end Stencil.Json
