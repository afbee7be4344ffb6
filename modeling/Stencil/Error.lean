import Stencil.Expr.Token
import Stencil.Markers
import Stencil.Value.Operator

/-!
# Errors

What can go wrong with a template, from the cause to the report that is shown.

## Main Definitions

* `Cause`, `ErrorKind` — the causes of errors, and what sort each is
* `Error.message` — what is said about an error
* `Error.report` — the message with the lines of the source around the place of the error
-/

namespace Stencil

/-- The sorts of errors. -/
inductive ErrorKind
  | unmatchedClose
  | invalidDelimiter
  | syntaxError
  | invalidOperation
  | templateNotFound
  | badSerialization
  | writeFailure
deriving DecidableEq, Repr

/-- How a message names a sort of errors. -/
def ErrorKind.description : ErrorKind → Text
  | unmatchedClose => "unmatched closing tag".toList
  | invalidDelimiter => "invalid custom delimiters".toList
  | syntaxError => "syntax error".toList
  | invalidOperation => "invalid operation".toList
  | templateNotFound => "template not found".toList
  | badSerialization => "could not serialize to internal format".toList
  | writeFailure => "failed to write output".toList

/-- Why something went wrong. -/
inductive Cause
  /-- A closing tag, by its body, where no branch is open. -/
  | unmatchedClose (body : Text)
  /-- Two texts that are no markers. -/
  | badMarkers (fault : Markers.Fault)
  /-- A text that is not an expression. -/
  | malformed (error : SyntaxError)
  /-- An operation without a result. -/
  | operation (fault : Value.Fault)
  /-- A path without a readable text behind it. -/
  | unreadable (path : Text)
  /-- Data that the JSON library does not store, by what it says about it. -/
  | unstorable (message : Text)
  /-- A piece of the output that could not be written. -/
  | unwritten
  /-- A sink that takes no more. -/
  | sinkFull
deriving DecidableEq

namespace Cause

/-- The sort of a cause. -/
def kind : Cause → ErrorKind
  | unmatchedClose _ => .unmatchedClose
  | badMarkers _ => .invalidDelimiter
  | malformed _ => .syntaxError
  | operation _ => .invalidOperation
  | unreadable _ => .templateNotFound
  | unstorable _ => .badSerialization
  | unwritten | sinkFull => .writeFailure

/-- The explanation of a cause. -/
def detail : Cause → Text
  | unmatchedClose body =>
    ['\x60'] ++ body ++ "` closes a branch that was never opened".toList
  | badMarkers .empty => "markers must not be empty".toList
  | badMarkers .equal => "begin and end marker must be different".toList
  | malformed error => error.message
  | operation fault => fault.message
  | unreadable path => "could not read ".toList ++ path
  | unstorable message => message
  | unwritten => "formatting failed".toList
  | sinkFull => "I/O error during rendering".toList

/-- Whether a cause goes back to a failure outside the library. -/
def isForeign : Cause → Bool
  | unreadable _ | unstorable _ | sinkFull => true
  | _ => false

end Cause

/-- An error, and where it was found. -/
structure Error where
  cause : Cause
  /-- The name of the template. -/
  name : Option Text := none
  /-- The number of the line of the source, zero if it is not known. -/
  lineNumber : Nat := 0
  /-- The source of the template. -/
  source : Option Text := none

namespace Error

/-- The line of the source, from one, if it is known. -/
def line (e : Error) : Option Nat := if e.lineNumber = 0 then none else some e.lineNumber

/-- What is said about an error: its sort, its cause and its place. -/
def message (e : Error) : Text :=
  let number := Nat.toDigits 10 e.lineNumber
  let place := match e.name with
    | some name => " (in ".toList ++ name ++ [':'] ++ number ++ [')']
    | none => if e.lineNumber = 0 then [] else " (on line ".toList ++ number ++ [')']
  e.cause.kind.description ++ [':', ' '] ++ e.cause.detail ++ place

/-- A line of the source with its number, which takes at least four places. -/
def numbered (separator : Char) (number : Nat) (line : Text) : Text :=
  let digits := Nat.toDigits 10 number
  List.replicate (4 - digits.length) ' ' ++ digits ++ [' ', separator, ' '] ++ line

/-- Consecutive lines of the source, numbered from the given number on. -/
def numberedFrom (number : Nat) : List Text → List Text
  | [] => []
  | line :: rest => numbered '|' number line :: numberedFrom (number + 1) rest

/-- How many lines are shown before and after the one of the error. -/
def window : Nat := 3

/-- The lines around the one with the given index, which is marked. -/
def excerptLines (lines : List Text) (index : Nat) : List Text :=
  let first := index - window
  numberedFrom (first + 1) ((lines.drop first).take (index - first)) ++
    [numbered '>' (index + 1) (lines[index]?.getD [])] ++
    numberedFrom (index + 2) ((lines.drop (index + 1)).take window)

/-- The excerpt of a source around a line, between two rules of the same width. -/
def excerpt (source : Text) (line : Nat) : Text :=
  let lines := Text.lines source
  let index := min (line - 1) (lines.length - 1)
  if lines = [] then []
  else
    let head := List.replicate 28 '-' ++ " Template Source ".toList ++ List.replicate 29 '-'
    ([head] ++ excerptLines lines index ++ [List.replicate 74 '-']).flatMap (['\n'] ++ ·)

/-- The message about an error, followed by an excerpt of the source if its line is known. -/
def report (e : Error) : Text :=
  match e.line, e.source with
  | some line, some source => e.message ++ excerpt source line
  | _, _ => e.message

end Error

end Stencil
