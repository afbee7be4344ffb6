import Stencil.Text.Basic

/-!
# White space

The white space of the library is the Unicode property `White_Space`, twenty-five characters in
all.  Zero-width spaces and the byte order mark do not belong to it.
-/

namespace Stencil.Text

/-- Whether a character has the Unicode property `White_Space`. -/
def isBlank (c : Char) : Bool :=
  let n := c.toNat
  (0x9 ≤ n && n ≤ 0xD) || n == 0x20 || n == 0x85 || n == 0xA0 || n == 0x1680 ||
    (0x2000 ≤ n && n ≤ 0x200A) || n == 0x2028 || n == 0x2029 || n == 0x202F || n == 0x205F ||
    n == 0x3000

/-- Every character that is white space in the narrower, ASCII sense is white space here. -/
theorem isBlank_of_isWhitespace {c : Char} (h : c.isWhitespace) : isBlank c := by
  simp only [Char.isWhitespace, Bool.or_eq_true, decide_eq_true_eq] at h
  rcases h with ((rfl | rfl) | rfl) | rfl <;> decide

/-- A text without the white space at its start. -/
def trimStart (t : Text) : Text := t.dropWhile isBlank

/-- A text without the white space at its end. -/
def trimEnd (t : Text) : Text := (t.reverse.dropWhile isBlank).reverse

/-- A text without the white space at both ends. -/
def trim (t : Text) : Text := trimEnd (trimStart t)

/-- Whether a text holds white space only. -/
def allBlank (t : Text) : Bool := t.all isBlank

/-- Whether a text starts with white space. -/
def startsBlank : Text → Bool
  | [] => false
  | c :: _ => isBlank c

theorem length_trimStart_le (t : Text) : (trimStart t).length ≤ t.length :=
  (t.dropWhile_sublist isBlank).length_le

/-- Whether a character can stand in a word: a Latin letter, a digit or the underscore. -/
def isWordChar (c : Char) : Bool := c.isAlphanum || c == '_'

/-- The longest start of a text that consists of word characters, and what follows it. -/
def splitWord (t : Text) : Text × Text := (t.takeWhile isWordChar, t.dropWhile isWordChar)

end Stencil.Text
