import Stencil.Json.Basic
import Stencil.Number.Layout

/-!
# Compact JSON

The compact text of JSON data has no white space between its parts.  Only what JSON requires is
escaped: quotes, backslashes and control characters, the common ones by a letter.
-/

namespace Stencil.Json

/-- How one character is written in a JSON string. -/
def escapedChar (c : Char) : Text :=
  if c = '"' then ['\\', '"']
  else if c = '\\' then ['\\', '\\']
  else if c = '\x08' then ['\\', 'b']
  else if c = '\x0c' then ['\\', 'f']
  else if c = '\n' then ['\\', 'n']
  else if c = '\r' then ['\\', 'r']
  else if c = '\t' then ['\\', 't']
  else if c.toNat < 0x20 then
    ['\\', 'u', '0', '0', (c.toNat / 16).digitChar, (c.toNat % 16).digitChar]
  else [c]

/-- A text as a JSON string. -/
def stringText (s : Text) : Text := ['"'] ++ s.flatMap escapedChar ++ ['"']

/-- The compact text of a number. -/
def Num.text : Num → Text
  | integer n => Number.integerText n
  | float x => x.jsonText?.getD "null".toList

mutual

/-- The compact text of JSON data. -/
def text : Json → Text
  | null => "null".toList
  | bool b => if b then "true".toList else "false".toList
  | number n => n.text
  | string s => stringText s
  | array items => ['['] ++ List.intercalate [','] (itemTexts items) ++ [']']
  | object members => ['\x7b'] ++ List.intercalate [','] (memberTexts members) ++ ['\x7d']

/-- The texts of the items of an array. -/
def itemTexts : List Json → List Text
  | [] => []
  | j :: rest => text j :: itemTexts rest

/-- The texts of the members of an object. -/
def memberTexts {low : Option Text} : Dict Json low → List Text
  | .nil => []
  | .cons k j _ rest => (stringText k ++ [':'] ++ text j) :: memberTexts rest

end

end Stencil.Json
