import Stencil.Dict
import Stencil.Serial

/-!
# JSON data

JSON data comes from a library, and so does all that is known about it: which texts are JSON, how
data of another kind is stored, and which number a number in JSON data is.  The templates depend on
the answers only, so the library is a parameter of everything that asks for one.

## Main Definitions

* `Json` — JSON data
* `Json.Library` — what a JSON library can be asked for
-/

namespace Stencil

/-- A number as JSON data keeps it: an integer of sixty-four bits, or a number of the binary64
format. -/
inductive Json.Num
  | integer (n : Int)
  | float (x : Number)
deriving DecidableEq, Inhabited

/-- JSON data.  The members of an object are in increasing order of their names, as in every
dictionary. -/
inductive Json
  | null
  | bool (b : Bool)
  | number (n : Json.Num)
  | string (s : Text)
  | array (items : List Json)
  | object (members : Dict Json none)
deriving Inhabited

/-- White space between the parts of JSON text. -/
def Json.isSpace (c : Char) : Bool := c == ' ' || c == '\t' || c == '\n' || c == '\r'

/-- A JSON library. -/
class Json.Library where
  /-- The data that a text stands for, if it is JSON. -/
  read? : Text → Option Json
  /-- The data that keeps what something consists of, or why there is none. -/
  store : Serial → Except Text Json
  /-- A number of JSON data in the binary64 format, if it can be had in that format. -/
  number? : Json.Num → Option Number

end Stencil
