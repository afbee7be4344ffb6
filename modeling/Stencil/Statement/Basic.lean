import Stencil.Text.Basic

/-!
# Statements

What a piece of a template asks for.  Plain text asks to be written; a tag holds one of the other
statements.
-/

namespace Stencil

/-- What a node of a document is. -/
inductive NodeKind
  | root
  | text
  | value
  | assignment
  | ifTrue
  | elseIf
  | otherwise
  | forEach
  | close
  | debug
deriving DecidableEq, Repr

namespace NodeKind

/-- The word for a kind of node. -/
def name : NodeKind → Text
  | root => "Root".toList
  | text => "Text".toList
  | value => "Value".toList
  | assignment => "Variable".toList
  | ifTrue => "If".toList
  | elseIf => "ElseIf".toList
  | otherwise => "Else".toList
  | forEach => "ForEach".toList
  | close => "End".toList
  | debug => "Debug".toList

/-- Whether nodes of a kind open a branch. -/
def opens : NodeKind → Bool
  | ifTrue | elseIf | otherwise | forEach => true
  | _ => false

/-- Whether nodes of a kind close the branch that is open. -/
def closes : NodeKind → Bool
  | elseIf | otherwise | close => true
  | _ => false

/-- Whether the white space around nodes of a kind may be taken away: around everything but text
and what is written in its place. -/
def isTrimmable : NodeKind → Bool
  | root | text | value => false
  | _ => true

end NodeKind

/-- What a piece of a template asks for, with the texts of its expressions. -/
inductive Statement
  /-- Write the text of the node. -/
  | text
  /-- Write the value of an expression. -/
  | value (expr : Text)
  /-- Give a name the value of an expression; the word `var` before it changes nothing. -/
  | assign (name expr : Text) (declared : Bool)
  /-- Start a chain of branches with the one for a true predicate. -/
  | ifTrue (predicate : Text)
  /-- Go on with the branch for a true predicate, if none before it was taken. -/
  | elseIf (predicate : Text)
  /-- Go on with the branch for the case that none before it was taken. -/
  | otherwise
  /-- Repeat the branch for every item of a source. -/
  | forEach (item source : Text)
  /-- End the branch. -/
  | close
  /-- Show the value of an expression outside the output. -/
  | debug (expr : Text)
deriving DecidableEq, Repr

/-- The kind of node that holds a statement. -/
def Statement.kind : Statement → NodeKind
  | text => .text
  | value _ => .value
  | assign _ _ _ => .assignment
  | ifTrue _ => .ifTrue
  | elseIf _ => .elseIf
  | otherwise => .otherwise
  | forEach _ _ => .forEach
  | close => .close
  | debug _ => .debug

end Stencil
