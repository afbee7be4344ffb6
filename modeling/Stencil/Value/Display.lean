import Stencil.Number.Layout
import Stencil.Text.Quoted
import Stencil.Value.Basic

/-!
# Display text

The display text is what a value adds to the output.  On the top level null shows nothing and a
string shows its characters; inside a container null has a name and strings are quoted.
-/

namespace Stencil.Value

mutual

/-- The text of a value, on the top level or inside a container. -/
def textIn (inside : Bool) : Value → Text
  | null => if inside then "null".toList else []
  | bool b => if b then "true".toList else "false".toList
  | number x => x.text
  | string s => if inside then Text.quoted s else s
  | sequence items => ['['] ++ List.intercalate [',', ' '] (itemTexts items) ++ [']']
  | map entries => ['\x7b'] ++ List.intercalate [',', ' '] (entryTexts entries) ++ ['\x7d']

/-- The texts of the items of a sequence. -/
def itemTexts : List Value → List Text
  | [] => []
  | v :: rest => textIn true v :: itemTexts rest

/-- The texts of the entries of a map, each with its quoted key. -/
def entryTexts {low : Option Text} : Dict Value low → List Text
  | .nil => []
  | .cons k v _ rest => (Text.quoted k ++ [':', ' '] ++ textIn true v) :: entryTexts rest

end

/-- The display text of a value. -/
def text (v : Value) : Text := textIn false v

end Stencil.Value
