import Mustache.Text.Search

/-! How the pieces that a render writes become text: inside an indented partial every line that
template text starts gets the indent, while newlines inside a value start no line. -/
namespace Mustache

/-- A piece written, with the indent then in force. Entering an indented partial opens a line. -/
inductive Write
  | openLine
  | text (indent text : String)
  | value (indent value : String) (written : String)
  deriving DecidableEq

/-- The text so far, and whether the next piece begins a line. -/
structure Page where
  text : String
  lineStart : Bool
  deriving DecidableEq, Inhabited

namespace Page

def blank : Page := ⟨"", true⟩

/-- The text with the indent added that is due before a piece. -/
def opened (p : Page) (indent : String) : String :=
  if p.lineStart then p.text ++ indent else p.text

/-- Adds one line of template text, which may lack its newline. -/
def putLine (indent : String) (p : Page) (line : List Char) : Page :=
  ⟨p.opened indent ++ String.ofList line, line.getLast? == some '\n'⟩

/-- Adds a piece. Text is laid out only where there is an indent. -/
def put (p : Page) : Write → Page
  | .openLine => { p with lineStart := true }
  | .text indent text =>
    if indent.isEmpty then { p with text := p.text ++ text }
    else (Text.lines text.toList).foldl (putLine indent) p
  | .value indent value written =>
    if value.isEmpty then p else ⟨p.opened indent ++ written, false⟩

end Page

/-- The page of a list of writes, newest first. -/
def layout (writes : List Write) : Page := writes.foldr (fun write page => page.put write) .blank

@[simp] theorem layout_nil : layout [] = .blank := rfl

@[simp] theorem layout_cons (write : Write) (writes : List Write) :
    layout (write :: writes) = (layout writes).put write := rfl

end Mustache
