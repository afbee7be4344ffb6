import Stencil.Number.Basic
import Stencil.Text.Basic

/-!
# What data consists of

Data of any type says what it consists of, part by part, and a library that stores or sends data
sees nothing else of it.
-/

namespace Stencil

/-- What data consists of.  The key of an entry is data, too. -/
inductive Serial
  | null
  | bool (b : Bool)
  | integer (n : Int)
  | float (x : Number)
  | string (s : Text)
  | sequence (items : List Serial)
  | map (entries : List (Serial × Serial))
deriving Inhabited

end Stencil
