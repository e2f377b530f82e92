import Mustache.Catalog
import Mustache.Config
import Mustache.Error
import Mustache.InclusionPath

/-! Checking a template without data: every branch is taken, every partial is followed. -/
namespace Mustache.Validation

/-- A check remembers the names it has looked up, newest first, also when it fails. -/
abbrev CheckM := EStateM Error (List String)

/-- Checks nodes one level down. -/
abbrev Deeper := InclusionPath → List Node → CheckM Unit

def load (loader : Loader) (name : String) : CheckM Template := fun loads =>
  match loader name with
  | some template => .ok template (name :: loads)
  | none => .error (.partialNotFound name) (name :: loads)

/-- Follows a partial. -/
def visitInclusion (loader : Loader) (deeper : Deeper) (path : InclusionPath) (i : Inclusion) :
    CheckM Unit := do
  let template ← match i.target with
    | some template => pure template
    | none => load loader i.name
  match path.enter i.name with
  | .error error => throw error
  | .ok path => deeper path template.nodes

/-- Checks overrides in order, given the names already seen. Each may be declared once. -/
def visitOverrides (deeper : Deeper) (path : InclusionPath) (seen : List String) :
    List Block → CheckM Unit
  | [] => pure ()
  | b :: rest => do
    if seen.contains b.name then throw (.duplicateBlock b.name)
    deeper path [.block b]
    visitOverrides deeper path (b.name :: seen) rest

/-- Checks one node. -/
def visit (loader : Loader) (deeper : Deeper) (path : InclusionPath) : Node → CheckM Unit
  | .text _ => pure ()
  | .interpolation _ _ => pure ()
  | .sect s => deeper path s.children
  | .inclusion i => visitInclusion loader deeper path i
  | .parent i overrides => do
    visitOverrides deeper path [] overrides
    visitInclusion loader deeper path i
  | .block b => deeper path b.children

/-- Goes one level down, with `room` levels of `limit` left. -/
def descend (loader : Loader) (limit : Nat) : (room : Nat) → Deeper
  | 0 => fun _ _ => throw (.depthExceeded limit)
  | room + 1 => fun path nodes => nodes.forM (visit loader (descend loader limit room) path)

/-- Checks nodes in order up to the first failure. -/
def visitAll (loader : Loader) (limit : Nat) (path : InclusionPath) (nodes : List Node) :
    CheckM Unit :=
  nodes.forM (visit loader (descend loader limit limit) path)

end Mustache.Validation

namespace Mustache

/-- The verdict of a check, and the names it looked up, oldest first. -/
structure Validation where
  result : Except Error Unit
  loads : List String

/-- Checks a template below a root path. -/
def Template.validate (t : Template) (loader : Loader) (config : Config)
    (path : InclusionPath) : Validation :=
  match Validation.visitAll loader config.maxDepth path t.nodes [] with
  | .ok _ loads => ⟨.ok (), loads.reverse⟩
  | .error error loads => ⟨.error error, loads.reverse⟩

end Mustache
