import Stencil.Text.Invisible

/-!
# Quoted text

A quoted text stands on one line between double quotes.  The quote and the backslash are written
after a backslash, tab, line feed, carriage return and the null character by their usual letters,
and every other invisible character by its code point, `\u` and hexadecimal digits in braces.
-/

namespace Stencil.Text

/-- How one character is written between the quotes. -/
def quotedChar (c : Char) : Text :=
  if c = '\x00' then ['\\', '0']
  else if c = '\t' then ['\\', 't']
  else if c = '\n' then ['\\', 'n']
  else if c = '\r' then ['\\', 'r']
  else if c = '"' then ['\\', '"']
  else if c = '\\' then ['\\', '\\']
  else if isInvisible c then ['\\', 'u', '\x7b'] ++ Nat.toDigits 16 c.toNat ++ ['\x7d']
  else [c]

/-- The quoted form of a text. -/
def quoted (t : Text) : Text := ['"'] ++ t.flatMap quotedChar ++ ['"']

end Stencil.Text
