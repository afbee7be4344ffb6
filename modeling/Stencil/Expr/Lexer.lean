import Stencil.Expr.StringLiteral
import Stencil.Expr.Token
import Stencil.Number.Decimal
import Stencil.Text.Blank

/-!
# Reading tokens

A text is read token by token; white space separates tokens and means nothing else.  After a dot a
numeral has no fraction and no exponent, so that a key path may hold several numerals.

## Main Definitions

* `Numeral` — the parts of a numeral, its number, and `Numeral.split`
* `Token.next?` — the first token of a text
* `Token.readAll` — all tokens of a text, up to the fault that ends them, if there is one
-/

namespace Stencil

/-- The parts of a numeral as they are written. -/
structure Numeral where
  /-- The digits before the point. -/
  whole : Text
  /-- The digits after the point. -/
  fraction : Text
  /-- The exponent, if there is one: whether it is negative, whether it has a sign, and its
  digits. -/
  exponent : Option (Bool × Bool × Text)
deriving DecidableEq

namespace Numeral

/-- The fraction at the start of a text: a point with at least one digit after it. -/
def splitFraction : Text → Text × Text
  | '.' :: t =>
    match t.takeWhile Char.isDigit with
    | [] => ([], '.' :: t)
    | digits => (digits, t.dropWhile Char.isDigit)
  | t => ([], t)

/-- The exponent at the start of a text: the letter, perhaps a sign, and digits.  After a sign there
may be no digits; without one the letter alone starts no exponent. -/
def splitExponent : Text → Option (Bool × Bool × Text) × Text
  | e :: t =>
    if e = 'e' ∨ e = 'E' then
      match t with
      | c :: rest =>
        if c = '-' ∨ c = '+' then
          (some (c = '-', true, rest.takeWhile Char.isDigit), rest.dropWhile Char.isDigit)
        else if c.isDigit then
          (some (false, false, t.takeWhile Char.isDigit), t.dropWhile Char.isDigit)
        else (none, e :: t)
      | [] => (none, e :: t)
    else (none, e :: t)
  | [] => (none, [])

/-- The numeral at the start of a text and what follows it; an integer has digits only. -/
def split (integerOnly : Bool) (t : Text) : Numeral × Text :=
  let whole := t.takeWhile Char.isDigit
  let rest := t.dropWhile Char.isDigit
  if integerOnly then (⟨whole, [], none⟩, rest)
  else
    let (fraction, rest) := splitFraction rest
    let (exponent, rest) := splitExponent rest
    (⟨whole, fraction, exponent⟩, rest)

/-- The number of a numeral; there is none if its exponent has no digits. -/
def number? (n : Numeral) : Option Number :=
  let digits := Nat.ofDigitChars 10 (n.whole ++ n.fraction) 0
  match n.exponent with
  | none => some (.ofDecimal digits (-n.fraction.length))
  | some (_, _, []) => none
  | some (negative, _, exponent) =>
    let e : Int := Nat.ofDigitChars 10 exponent 0
    some (.ofDecimal digits ((if negative then -e else e) - n.fraction.length))

theorem length_dropDigits_le (t : Text) : (t.dropWhile Char.isDigit).length ≤ t.length :=
  (t.dropWhile_sublist Char.isDigit).length_le

theorem length_splitFraction_le (t : Text) : (splitFraction t).2.length ≤ t.length := by
  unfold splitFraction
  split
  · split
    · exact Nat.le_refl _
    · exact Nat.le_succ_of_le (length_dropDigits_le _)
  · exact Nat.le_refl _

theorem length_splitExponent_le (t : Text) : (splitExponent t).2.length ≤ t.length := by
  unfold splitExponent
  split
  · split
    · split
      · split
        · exact Nat.le_succ_of_le (Nat.le_succ_of_le (length_dropDigits_le _))
        · split
          · exact Nat.le_succ_of_le (length_dropDigits_le _)
          · exact Nat.le_refl _
      · exact Nat.le_refl _
    · exact Nat.le_refl _
  · exact Nat.le_refl _

/-- A numeral that starts with a digit takes something away. -/
theorem length_split_lt {integerOnly : Bool} {c : Char} {t : Text} (h : c.isDigit) :
    (split integerOnly (c :: t)).2.length < (c :: t).length := by
  have hd : ((c :: t).dropWhile Char.isDigit).length < (c :: t).length := by
    have := length_dropDigits_le t
    simp only [List.dropWhile_cons, h, if_true, List.length_cons]; omega
  have hf := length_splitFraction_le ((c :: t).dropWhile Char.isDigit)
  have he := length_splitExponent_le (splitFraction ((c :: t).dropWhile Char.isDigit)).2
  unfold split
  split
  · exact hd
  · simp only; omega

end Numeral

namespace Token

/-- The symbol of two characters at the start of a text. -/
def symbolOfTwo? (c d : Char) : Option Symbol :=
  match c, d with
  | '*', '*' => some .power
  | '=', '=' => some .equal
  | '!', '=' | '<', '>' => some .notEqual
  | '>', '=' | '=', '>' => some .greaterEqual
  | '<', '=' | '=', '<' => some .lessEqual
  | '&', '&' => some .both
  | '|', '|' => some .either
  | _, _ => none

/-- The symbol of one character. -/
def symbolOfOne? : Char → Option Symbol
  | '+' => some .plus
  | '-' => some .minus
  | '*' => some .times
  | '/' => some .divide
  | '.' => some .dot
  | ',' => some .comma
  | '=' => some .equal
  | '>' => some .greater
  | '<' => some .less
  | '!' => some .bang
  | '(' => some .openParen
  | ')' => some .closeParen
  | '[' => some .openBracket
  | ']' => some .closeBracket
  | _ => none

/-- Whether a character can start a name. -/
def startsName (c : Char) : Bool := c.isAlpha || c == '_' || c == '@'

/-- The symbol at the start of a text, one of two characters before one of a single character. -/
def splitSymbol? : (t : Text) → Option (Symbol × { rest : Text // rest.length < t.length })
  | [] => none
  | [c] => (symbolOfOne? c).map (·, ⟨[], Nat.lt_succ_self _⟩)
  | c :: d :: t =>
    match symbolOfTwo? c d with
    | some s => some (s, ⟨t, Text.length_lt_cons_cons c d t⟩)
    | none => (symbolOfOne? c).map (·, ⟨d :: t, Nat.lt_succ_self _⟩)

/-- The string literal at the start of a text, from its opening quote. -/
def splitString (quote : Char) (t : Text) :
    Except SyntaxError (Token × { rest : Text // rest.length ≤ t.length }) :=
  match h : StringLiteral.split? quote t with
  | none => .error .openString
  | some (raw, escaped, rest) =>
    let left : { rest : Text // rest.length ≤ t.length } :=
      ⟨rest, Nat.le_of_lt (StringLiteral.length_of_split? h)⟩
    if escaped then
      match StringLiteral.unescape? raw with
      | some content => .ok (.string content true, left)
      | none => .error .badEscape
    else .ok (.string raw false, left)

/-- The first token of a text that does not start with white space, and what follows it. -/
def next? (afterDot : Bool) (c : Char) (t : Text) :
    Except SyntaxError (Token × { rest : Text // rest.length < (c :: t).length }) :=
  match splitSymbol? (c :: t) with
  | some (s, rest) => .ok (.symbol s, rest)
  | none =>
    if c = '\'' ∨ c = '"' then
      match splitString c t with
      | .ok (token, ⟨rest, h⟩) => .ok (token, ⟨rest, by simp only [List.length_cons]; omega⟩)
      | .error e => .error e
    else if h : c.isDigit then
      match (Numeral.split afterDot (c :: t)).1.number? with
      | some x => .ok (.number x, ⟨(Numeral.split afterDot (c :: t)).2, Numeral.length_split_lt h⟩)
      | none => .error .numeral
    else if startsName c then
      .ok (.name (c :: (Text.splitWord t).1), ⟨(Text.splitWord t).2, by
        have := (t.dropWhile_sublist Text.isWordChar).length_le
        simp only [Text.splitWord, List.length_cons]; omega⟩)
    else .error .character

/-- All tokens of a text, and the fault that keeps the reading from its end, if there is one. -/
def readFrom (afterDot : Bool) (t : Text) : List Token × Option SyntaxError :=
  have hs := Text.length_trimStart_le t
  match ht : Text.trimStart t with
  | [] => ([], none)
  | c :: rest =>
    match next? afterDot c rest with
    | .error e => ([], some e)
    | .ok (token, ⟨left, h⟩) =>
      have hl : left.length < t.length := by rw [ht] at hs; omega
      let (tokens, fault) := readFrom (token = .symbol .dot) left
      (token :: tokens, fault)
termination_by t.length

/-- All tokens of a text, and the fault that keeps the reading from its end, if there is one. -/
def readAll (t : Text) : List Token × Option SyntaxError := readFrom false t

/-- The tokens of a text that can be read to its end. -/
def ofText (t : Text) : Except SyntaxError (List Token) :=
  match readAll t with
  | (tokens, none) => .ok tokens
  | (_, some e) => .error e

end Token

end Stencil
