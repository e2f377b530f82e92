import Mustache.Error
import Mustache.Node

/-! The nodes of a tree in document order, each by its kind and its name or text. -/
namespace Mustache

inductive NodeKind
  | text | interpolation | sect | inclusion | parent | block
  deriving DecidableEq

def NodeKind.label : NodeKind → String
  | text => "text"
  | interpolation => "variable"
  | sect => "section"
  | inclusion => "partial"
  | parent => "inheritable_partial"
  | block => "inheritable_section"

/-- A node met: its kind, and its text or name. -/
structure Sighting where
  kind : NodeKind
  what : String
  deriving DecidableEq

mutual

/-- What a visit of a node meets. A deep visit goes on to the children of sections and blocks and to
the overrides of partials, but never into another template. -/
def Node.outline (deep : Bool) : Node → List Sighting
  | .text text => [⟨.text, text⟩]
  | .interpolation name _ => [⟨.interpolation, name⟩]
  | .sect s => s.outline deep
  | .inclusion i => [⟨.inclusion, i.name⟩]
  | .parent i overrides => ⟨.parent, i.name⟩ :: (if deep then Block.outlines deep overrides else [])
  | .block b => b.outline deep

def Section.outline (deep : Bool) : Section → List Sighting
  | ⟨name, _, _, children⟩ => ⟨.sect, name⟩ :: (if deep then Node.outlines deep children else [])

def Block.outline (deep : Bool) : Block → List Sighting
  | ⟨name, children⟩ => ⟨.block, name⟩ :: (if deep then Node.outlines deep children else [])

def Node.outlines (deep : Bool) : List Node → List Sighting
  | [] => []
  | n :: rest => n.outline deep ++ Node.outlines deep rest

def Block.outlines (deep : Bool) : List Block → List Sighting
  | [] => []
  | b :: rest => b.outline deep ++ Block.outlines deep rest

end

/-- A visit that refuses the node after `limit` others meets only those and fails. -/
def refuseAfter (limit : Option Nat) (sightings : List Sighting) :
    Except Error Unit × List Sighting :=
  match limit with
  | none => (.ok (), sightings)
  | some limit =>
    if limit < sightings.length then (.error .cancelled, sightings.take limit)
    else (.ok (), sightings)

end Mustache
