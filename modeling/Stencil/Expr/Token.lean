import Stencil.Number.Basic
import Stencil.Text.Basic

/-!
# Expression tokens

The words that an expression is made of, and the ways in which reading one can fail.
-/

namespace Stencil

/-- Punctuation and the operators that are not words. -/
inductive Symbol
  | plus
  | minus
  | times
  | divide
  | power
  | dot
  | comma
  | equal
  | notEqual
  | greater
  | greaterEqual
  | less
  | lessEqual
  | both
  | either
  | bang
  | openBracket
  | closeBracket
  | openParen
  | closeParen
deriving DecidableEq, Repr

/-- The usual spelling of a symbol. -/
def Symbol.spelling : Symbol → Text
  | plus => "+".toList
  | minus => "-".toList
  | times => "*".toList
  | divide => "/".toList
  | power => "**".toList
  | dot => ".".toList
  | comma => ",".toList
  | equal => "==".toList
  | notEqual => "!=".toList
  | greater => ">".toList
  | greaterEqual => ">=".toList
  | less => "<".toList
  | lessEqual => "<=".toList
  | both => "&&".toList
  | either => "||".toList
  | bang => "!".toList
  | openBracket => "[".toList
  | closeBracket => "]".toList
  | openParen => "(".toList
  | closeParen => ")".toList

/-- A token of an expression. -/
inductive Token
  /-- A name or a word of the language. -/
  | name (text : Text)
  /-- A string literal, and whether it was written with escapes. -/
  | string (content : Text) (escaped : Bool)
  /-- A numeral. -/
  | number (x : Number)
  /-- Punctuation or an operator. -/
  | symbol (s : Symbol)
deriving DecidableEq

/-- How a message refers to a token. -/
def Token.description : Token → Text
  | name _ => "identifier".toList
  | string _ _ => "string".toList
  | number _ => "number".toList
  | symbol s => ['\x60'] ++ s.spelling ++ ['\x60']

/-- Whether a token is the given word, in any case. -/
def Token.isWord (word : String) : Token → Bool
  | name text => Text.sameWord text word.toList
  | _ => false

/-- What the grammar can ask for. -/
inductive Expectation
  | expression
  | attributeName
  | comma
  | closeBracket
  | closeParen
  | endOfExpression
deriving DecidableEq, Repr

/-- How a message refers to what the grammar asks for. -/
def Expectation.description : Expectation → Text
  | expression => "expression".toList
  | attributeName => "attribute name".toList
  | comma => "`,`".toList
  | closeBracket => "`]`".toList
  | closeParen => "`)`".toList
  | endOfExpression => "end of expression".toList

/-- Why a text is not an expression. -/
inductive SyntaxError
  /-- A character that starts no token. -/
  | character
  /-- A numeral whose exponent has no digits. -/
  | numeral
  /-- A string literal without its closing quote. -/
  | openString
  /-- An escape that names no character. -/
  | badEscape
  /-- A token, or the end of the text, where the grammar asks for something else. -/
  | unexpected (found : Option Token) (expected : Expectation)
  /-- An expression nested too deeply. -/
  | tooDeep
deriving DecidableEq

/-- The explanation of a syntax error. -/
def SyntaxError.message : SyntaxError → Text
  | character => "unexpected character".toList
  | numeral => "invalid number".toList
  | openString => "unexpected end of string".toList
  | badEscape => "bad string escape".toList
  | unexpected found expected =>
    let what := match found with
      | some token => token.description
      | none => "end of input".toList
    "unexpected ".toList ++ what ++ ", expected ".toList ++ expected.description
  | tooDeep => "expression exceeds maximum recursion limits".toList

end Stencil
