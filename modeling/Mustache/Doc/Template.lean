import Mustache.Assembly
import Mustache.Doc

/-! Templates as documents: only the name and the source are kept, and the tree is read anew. -/
namespace Mustache

/-- Why a stored template cannot be restored: the document has the wrong form, or its source cannot
be read. -/
inductive RestoreError
  | malformed
  | unreadable (error : ParseError)
  deriving DecidableEq

/-- The text of the failure, where it has one. -/
def RestoreError.message? : RestoreError → Option String
  | malformed => none
  | unreadable error => some ("Failed to parse template: " ++ error.text)

namespace Template

def toDoc (t : Template) : Doc :=
  .map [("name", .ofOption .str t.name), ("source", .str t.source)]

/-- The name and the source that a document holds. -/
def fields? (doc : Doc) : Option (Option String × String) := do
  match ← doc.record? ["name", "source"] with
  | [name, some source] => some (← Doc.optional? Doc.str? name, ← source.str?)
  | _ => none

def ofDoc (doc : Doc) : Except RestoreError Template :=
  match fields? doc with
  | none => .error .malformed
  | some (name, source) =>
    match parse source with
    | .ok t => .ok { t with name }
    | .error error => .error (.unreadable error)

end Template

end Mustache
