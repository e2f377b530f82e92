import Mustache.Position
import Mustache.Value

/-! Everything that can go wrong, by cause, and the words for it. -/
namespace Mustache

/-- What is wrong at a place of a source. -/
inductive ParseErrorKind
  | unexpectedToken (expected found : String)
  | unexpectedEnd (expectation : String)
  | expected (description : String)
  | invalidDelimiters (content : String)
  | message (text : String)
  deriving DecidableEq

structure ParseError where
  line : Nat
  column : Nat
  kind : ParseErrorKind
  deriving DecidableEq

/-- Every way in which reading, checking or rendering can fail. -/
inductive Error
  | templateExists (name : String)
  | missingTemplate (name : String)
  | missingVariable (name : String)
  | partialNotFound (name : String)
  | inclusionCycle (name : String) (path : List String)
  | lambdaFailed (name message : String)
  | conversion (name : String) (found : Kind)
  | invertedLambda (name : String)
  | depthExceeded (limit : Nat)
  | duplicateBlock (name : String)
  | cancelled
  | parse (error : ParseError)
  deriving DecidableEq

namespace ParseErrorKind

/-- The source ends before `awaited`. -/
def endBefore (awaited : String) : ParseErrorKind :=
  .unexpectedEnd (" (expected '" ++ awaited ++ "')")

/-- A tag lacks its name. -/
def nameMissing : ParseErrorKind := .expected "identifier"

/-- A tag holds more than one name. -/
def nameBroken (content : String) : ParseErrorKind :=
  .expected ("a single name, found '" ++ content ++ "'")

/-- How messages call a closing tag. -/
def closingTag (name : String) : String := "closing tag for '" ++ name ++ "'"

/-- A closing tag where nothing is open. -/
def strayClosing (name : String) : ParseErrorKind :=
  .unexpectedToken "text or tag" (closingTag name)

/-- A closing tag that names something else than what is open. -/
def mismatchedClosing (opened found : String) : ParseErrorKind :=
  .unexpectedToken (closingTag opened) (closingTag found)

def text : ParseErrorKind → String
  | unexpectedToken wanted found => "Expected " ++ wanted ++ ", found " ++ found
  | unexpectedEnd expectation => "Unexpected EOF" ++ expectation
  | expected description => "Expected " ++ description
  | invalidDelimiters content => "Invalid delimiters '" ++ content ++ "'"
  | message words => "Parser error: " ++ words

end ParseErrorKind

def ParseError.at (p : Position) (kind : ParseErrorKind) : ParseError := ⟨p.line, p.column, kind⟩

def ParseError.text (e : ParseError) : String :=
  "Parse error at line " ++ Nat.repr e.line ++ ", column " ++ Nat.repr e.column ++ ": " ++
    e.kind.text

def Error.message : Error → String
  | templateExists name => "Template already exists: " ++ name
  | missingTemplate name => "Template not found: " ++ name
  | missingVariable name => "Variable not found: " ++ name
  | partialNotFound name => "Partial not found: " ++ name
  | inclusionCycle name path =>
    "Partial inclusion cycle at '" ++ name ++ "': " ++ String.intercalate " -> " path
  | lambdaFailed name message => "Lambda '" ++ name ++ "' failed: " ++ message
  | conversion name found => "Cannot render '" ++ name ++ "' as text: found " ++ found.label
  | invertedLambda name => "Inverted section '" ++ name ++ "' over a lambda is not supported"
  | depthExceeded limit => "Maximum nesting depth of " ++ Nat.repr limit ++ " exceeded"
  | duplicateBlock name => "Override block '" ++ name ++ "' is declared more than once"
  | cancelled => "Rendering cancelled"
  | parse error => error.text

/-- The text of the error behind this one: only a parse error has one. -/
def Error.cause? : Error → Option String
  | parse error => some error.kind.text
  | _ => none

end Mustache
