import Stencil.Statement.Basic
import Stencil.Text.Blank

/-!
# Classifying tags

The body of a tag is tried against the forms of the statements in a fixed order, and is a value if
none of them fits.  Words of the language are written in any case.

## Main Definitions

* `Statement.ofBody` — the statement of the body of a tag
* `Statement.matchAssignment?`, … — one form each
-/

namespace Stencil.Statement

/-- What follows a word at the start of a text, in any case of its letters. -/
def afterWord? : Text → Text → Option Text
  | [], t => some t
  | _ :: _, [] => none
  | c :: word, d :: t => if c.toLower = d.toLower then afterWord? word t else none

/-- What follows a word that ends where it should: no word character comes next. -/
def afterWholeWord? (word : String) (t : Text) : Option Text :=
  match afterWord? word.toList t with
  | some [] => some []
  | some (c :: rest) => if Text.isWordChar c then none else some (c :: rest)
  | none => none

/-- What follows a word and the opening parenthesis after it. -/
def afterCall? (word : String) (t : Text) : Option Text :=
  match (afterWord? word.toList t).map Text.trimStart with
  | some ('(' :: rest) => some rest
  | _ => none

/-- What stands before the last closing parenthesis, or everything if the text does not end with
one. -/
def arguments (t : Text) : Text :=
  let t := Text.trim t
  if t.getLast? = some ')' then Text.trim t.dropLast else t

/-- The name at the start of a text, and what follows it. -/
def splitName? (t : Text) : Option (Text × Text) :=
  match Text.splitWord t with
  | ([], _) => none
  | (name, rest) => some (name, rest)

/-- The name and the expression of an assignment.  The sign after the name must not be the start
of a comparison. -/
def nameAndExpr? (t : Text) : Option (Text × Text) :=
  match splitName? t with
  | none => none
  | some (name, rest) =>
    match Text.trimStart rest with
    | '=' :: rest =>
      if rest.head? = some '=' ∨ rest.head? = some '>' ∨ rest.head? = some '<' then none
      else if Text.trim rest = [] then none
      else some (name, Text.trim rest)
    | _ => none

/-- The assignment after the word `var` and white space. -/
def declaration? (t : Text) : Option (Text × Text) :=
  match afterWord? "var".toList t with
  | some rest => if Text.startsBlank rest then nameAndExpr? (Text.trimStart rest) else none
  | none => none

/-- An assignment: `var name = expr` or `name = expr`. -/
def matchAssignment? (t : Text) : Option Statement :=
  match declaration? t with
  | some (name, expr) => some (assign name expr true)
  | none => (nameAndExpr? t).map fun (name, expr) => assign name expr false

/-- The first branch of a chain: `if(predicate)`. -/
def matchIf? (t : Text) : Option Statement :=
  (afterCall? "if" t).map fun rest => ifTrue (arguments rest)

/-- A further branch of a chain: `else if(predicate)`. -/
def matchElseIf? (t : Text) : Option Statement :=
  match afterWord? "else".toList t with
  | some rest =>
    if Text.startsBlank rest then
      (afterCall? "if" (Text.trimStart rest)).map fun rest => elseIf (arguments rest)
    else none
  | none => none

/-- The last branch of a chain: `else`. -/
def matchElse? (t : Text) : Option Statement := (afterWholeWord? "else" t).map fun _ => otherwise

/-- The end of a branch: `end`. -/
def matchEnd? (t : Text) : Option Statement := (afterWholeWord? "end" t).map fun _ => close

/-- The name of the items and the source of a loop. -/
def loopHeader? (t : Text) : Option (Text × Text) :=
  match splitName? t with
  | none => none
  | some (name, rest) =>
    (afterWholeWord? "in" (Text.trimStart rest)).map fun source => (name, Text.trim source)

/-- A loop: `foreach(name in source)`.  A loop with a malformed header has neither name nor
source. -/
def matchForEach? (t : Text) : Option Statement :=
  (afterCall? "foreach" t).map fun rest =>
    let (item, source) := (loopHeader? (arguments rest)).getD ([], [])
    forEach item source

/-- An inspection: `debug(expr)`. -/
def matchDebug? (t : Text) : Option Statement :=
  (afterCall? "debug" t).map fun rest => debug (arguments rest)

/-- The statement of the body of a tag: the first form that fits, or else a value. -/
def ofBody (t : Text) : Statement :=
  ((matchAssignment? t).or <| (matchIf? t).or <| (matchElseIf? t).or <| (matchElse? t).or <|
    (matchEnd? t).or <| (matchForEach? t).or (matchDebug? t)).getD (value t)

end Stencil.Statement
