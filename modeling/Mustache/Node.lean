import Mustache.Delimiters
import Mustache.Text.Bytes

/-! The tree of a template. -/
namespace Mustache

/-- Where the unparsed body of a section lies in a source, and the delimiters in force there. -/
structure Body where
  source : String
  start : Nat
  stop : Nat
  delimiters : Delimiters
  deriving DecidableEq, Inhabited

namespace Body

/-- The body of a section that was not read from a source. -/
def absent : Body := ⟨"", 0, 0, .standard⟩

/-- The bytes of the body, or nothing where they are no slice of the source. -/
def text (b : Body) : String :=
  ((Text.slice? b.start b.stop b.source.toList).map String.ofList).getD ""

end Body

mutual

/-- One node: text, a variable, a section, a partial, a partial with overrides, or a block. -/
inductive Node where
  | text (text : String)
  | interpolation (name : String) (escaped : Bool)
  | sect (sect : Section)
  | inclusion (inclusion : Inclusion)
  | parent (inclusion : Inclusion) (overrides : List Block)
  | block (block : Block)

/-- Children that depend on a value. An inverted section renders them when there is none. -/
structure Section where
  name : String
  inverted : Bool
  body : Body
  children : List Node

/-- A partial: its name, the blanks in front of it when it stood alone on its line, and its
template if it is settled ahead of time. -/
structure Inclusion where
  name : String
  indent : String
  target : Option Template

/-- A named place that an including template may fill; the children are the default. -/
structure Block where
  name : String
  children : List Node

/-- A list of nodes, with the name and the source it is known by. -/
structure Template where
  name : Option String
  source : String
  nodes : List Node

end

instance : Inhabited Node := ⟨.text ""⟩
instance : Inhabited Template := ⟨⟨none, "", []⟩⟩

namespace Section

/-- A section built by hand, without a body text. -/
def ofChildren (name : String) (inverted : Bool) (children : List Node) : Section :=
  ⟨name, inverted, .absent, children⟩

end Section

/-- A partial that is looked up by its name when it is reached. -/
def Inclusion.named (name : String) : Inclusion := ⟨name, "", none⟩

namespace Template

/-- A template built by hand. -/
def ofNodes (nodes : List Node) : Template := ⟨none, "", nodes⟩

def withName (t : Template) (name : String) : Template := { t with name := some name }

end Template

mutual

/-- The number of nodes, those of settled templates included. -/
def Node.size : Node → Nat
  | .text _ => 1
  | .interpolation _ _ => 1
  | .sect s => s.size + 1
  | .inclusion i => i.size + 1
  | .parent i overrides => i.size + Block.sizes overrides + 2
  | .block b => b.size + 1

def Section.size : Section → Nat
  | ⟨_, _, _, children⟩ => Node.sizes children

def Inclusion.size : Inclusion → Nat
  | ⟨_, _, target⟩ => Template.targetSize target

def Block.size : Block → Nat
  | ⟨_, children⟩ => Node.sizes children

def Template.size : Template → Nat
  | ⟨_, _, nodes⟩ => Node.sizes nodes

def Template.targetSize : Option Template → Nat
  | none => 0
  | some t => t.size

def Node.sizes : List Node → Nat
  | [] => 0
  | n :: rest => n.size + Node.sizes rest

def Block.sizes : List Block → Nat
  | [] => 0
  | b :: rest => b.size + 1 + Block.sizes rest

end

theorem Section.sizes_children (s : Section) : Node.sizes s.children = s.size := by
  cases s
  rfl

theorem Inclusion.size_target (i : Inclusion) : Template.targetSize i.target = i.size := by
  cases i
  rfl

theorem Block.sizes_children (b : Block) : Node.sizes b.children = b.size := by
  cases b
  rfl

theorem Template.sizes_nodes (t : Template) : Node.sizes t.nodes = t.size := by
  cases t
  rfl

end Mustache
