import Mustache.Proofs.Tree

/-! Trees that differ only in where the bodies of their sections lie. -/
namespace Mustache

/-- The same body in a longer source, behind `bytes` more bytes. -/
def Body.within (source : String) (bytes : Nat) (b : Body) : Body :=
  ⟨source, bytes + b.start, bytes + b.stop, b.delimiters⟩

/-- The body is this part of its source. -/
structure Body.Lies (b : Body) (before inside behind : List Char) : Prop where
  source : b.source.toList = before ++ inside ++ behind
  start : b.start = Text.byteLength before
  stop : b.stop = Text.byteLength before + Text.byteLength inside

namespace Body
variable {b : Body} {before inside behind : List Char}

theorem Lies.text (h : b.Lies before inside behind) : b.text = String.ofList inside := by
  unfold Body.text
  rw [h.source, h.start, h.stop, Text.slice?_append]
  rfl

theorem Lies.within (h : b.Lies before inside behind) {longer : String} {front back : List Char}
    (around : longer.toList = front ++ b.source.toList ++ back) :
    (b.within longer (Text.byteLength front)).Lies (front ++ before) inside (behind ++ back) where
  source := by
    rw [h.source] at around
    simp only [Body.within, around, List.append_assoc]
  start := by
    rw [Body.within, h.start, Text.byteLength_append]
  stop := by
    rw [Body.within, h.stop, Text.byteLength_append, Nat.add_assoc]

/-- A body keeps its text in a longer source. -/
theorem Lies.text_within (h : b.Lies before inside behind) {longer : String}
    {front back : List Char} (around : longer.toList = front ++ b.source.toList ++ back) :
    (b.within longer (Text.byteLength front)).text = b.text := by
  rw [(h.within around).text, h.text]

end Body

mutual

/-- Changes the bodies of all sections. Settled templates stay as they are. -/
def Node.mapBody (f : Body → Body) : Node → Node
  | .text text => .text text
  | .interpolation name escaped => .interpolation name escaped
  | .sect s => .sect (s.mapBody f)
  | .inclusion i => .inclusion i
  | .parent i overrides => .parent i (Block.mapBodies f overrides)
  | .block b => .block (b.mapBody f)

def Section.mapBody (f : Body → Body) : Section → Section
  | ⟨name, inverted, body, children⟩ => ⟨name, inverted, f body, Node.mapBodies f children⟩

def Block.mapBody (f : Body → Body) : Block → Block
  | ⟨name, children⟩ => ⟨name, Node.mapBodies f children⟩

def Node.mapBodies (f : Body → Body) : List Node → List Node
  | [] => []
  | n :: rest => n.mapBody f :: Node.mapBodies f rest

def Block.mapBodies (f : Body → Body) : List Block → List Block
  | [] => []
  | b :: rest => b.mapBody f :: Block.mapBodies f rest

end

theorem Node.mapBodies_eq (f : Body → Body) (nodes : List Node) :
    Node.mapBodies f nodes = nodes.map (Node.mapBody f) := by
  induction nodes with
  | nil => rfl
  | cons n rest ih => rw [mapBodies, ih, List.map_cons]

theorem Block.mapBodies_eq (f : Body → Body) (blocks : List Block) :
    Block.mapBodies f blocks = blocks.map (Block.mapBody f) := by
  induction blocks with
  | nil => rfl
  | cons b rest ih => rw [mapBodies, ih, List.map_cons]

section Fields
variable (f : Body → Body)

@[simp] theorem Section.name_mapBody (s : Section) : (s.mapBody f).name = s.name := by
  cases s
  rfl

@[simp] theorem Section.inverted_mapBody (s : Section) :
    (s.mapBody f).inverted = s.inverted := by
  cases s
  rfl

@[simp] theorem Section.body_mapBody (s : Section) : (s.mapBody f).body = f s.body := by
  cases s
  rfl

@[simp] theorem Section.children_mapBody (s : Section) :
    (s.mapBody f).children = s.children.map (Node.mapBody f) := by
  cases s
  exact Node.mapBodies_eq f _

@[simp] theorem Block.name_mapBody (b : Block) : (b.mapBody f).name = b.name := by
  cases b
  rfl

@[simp] theorem Block.children_mapBody (b : Block) :
    (b.mapBody f).children = b.children.map (Node.mapBody f) := by
  cases b
  exact Node.mapBodies_eq f _

@[simp] theorem Node.mapBody_text (t : String) : (Node.text t).mapBody f = .text t := rfl

@[simp] theorem Node.mapBody_interpolation (name : String) (escaped : Bool) :
    (Node.interpolation name escaped).mapBody f = .interpolation name escaped := rfl

@[simp] theorem Node.mapBody_sect (s : Section) : (Node.sect s).mapBody f = .sect (s.mapBody f) :=
  rfl

@[simp] theorem Node.mapBody_inclusion (i : Inclusion) :
    (Node.inclusion i).mapBody f = .inclusion i := rfl

@[simp] theorem Node.mapBody_parent (i : Inclusion) (overrides : List Block) :
    (Node.parent i overrides).mapBody f = .parent i (overrides.map (Block.mapBody f)) := by
  rw [Node.mapBody, Block.mapBodies_eq]

@[simp] theorem Node.mapBody_block (b : Block) : (Node.block b).mapBody f = .block (b.mapBody f) :=
  rfl

theorem Node.parts_mapBody (n : Node) : (n.mapBody f).parts = n.parts.map (Node.mapBody f) := by
  cases n with
  | sect s => exact s.children_mapBody f
  | block b => exact b.children_mapBody f
  | parent i overrides => simp [parts]
  | text | interpolation | inclusion => rfl

end Fields

namespace Node

theorem mapBody_id (n : Node) : n.mapBody id = n := by
  induction n using induction_parts with
  | step n ih =>
    have same {children : List Node} (h : ∀ m ∈ children, m.mapBody id = m) :
        children.map (mapBody id) = children :=
      (List.map_congr_left h).trans (List.map_id' children)
    cases n with
    | text | interpolation | inclusion => rfl
    | sect s =>
      obtain ⟨name, inverted, body, children⟩ := s
      have kept : children.map (mapBody id) = children := same ih
      simp only [mapBody, Section.mapBody, mapBodies_eq, kept, id_eq]
    | block b =>
      obtain ⟨name, children⟩ := b
      have kept : children.map (mapBody id) = children := same ih
      simp only [mapBody, Block.mapBody, mapBodies_eq, kept]
    | parent i overrides =>
      have kept (b : Block) (hb : b ∈ overrides) : b.mapBody id = b :=
        Node.block.inj (ih (.block b) (List.mem_map_of_mem hb))
      rw [mapBody_parent, List.map_congr_left kept, List.map_id']

end Node

end Mustache
