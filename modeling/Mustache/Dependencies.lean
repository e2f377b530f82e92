import Mustache.Context

/-! The names that a template depends on, and those of them that given data lacks. -/
namespace Mustache

/-- Names by what they stand for. The root names are the variables and sections used outside of any
section, which the root data must provide. -/
structure Dependencies where
  «variables» : Names
  sections : Names
  partials : Names
  blocks : Names
  unresolved : Names
  rootNames : Names
  deriving DecidableEq, Inhabited

namespace Dependencies

def empty : Dependencies := ⟨[], [], [], [], [], []⟩

/-- Adds a root name, if it is used outside of sections and is not the current value itself. -/
def addRootName (d : Dependencies) (inSection : Bool) (name : String) : Dependencies :=
  if inSection || name == "." then d else { d with rootNames := d.rootNames.insert name }

def addVariable (d : Dependencies) (inSection : Bool) (name : String) : Dependencies :=
  { d with «variables» := d.«variables».insert name }.addRootName inSection name

def addSection (d : Dependencies) (inSection : Bool) (name : String) : Dependencies :=
  { d with sections := d.sections.insert name }.addRootName inSection name

def addPartial (d : Dependencies) (name : String) : Dependencies :=
  { d with partials := d.partials.insert name }

def addBlock (d : Dependencies) (name : String) : Dependencies :=
  { d with blocks := d.blocks.insert name }

def addUnresolved (d : Dependencies) (name : String) : Dependencies :=
  { d with unresolved := d.unresolved.insert name }

/-- The root names whose first segment is no key of the data. -/
def missingFrom (d : Dependencies) (data : Value) : List String :=
  d.rootNames.filter fun name =>
    let first := (nameSegments name).1
    first != "." && (data.get? first).isNone

end Dependencies

end Mustache
