import Mustache.Validation
import Mustache.Proofs.Site

/-! What a check without data has seen when it finds nothing wrong. -/
namespace Mustache

/-- Nothing is wrong with a node that has `room` levels below it: they suffice, every partial in it
is there and not on the path, and no partial overrides a block twice. -/
inductive Node.Valid (loader : Loader) : Nat → InclusionPath → Node → Prop
  | text {room : Nat} {path : InclusionPath} (text : String) : Valid loader room path (.text text)
  | interpolation {room : Nat} {path : InclusionPath} (name : String) (escaped : Bool) :
    Valid loader room path (.interpolation name escaped)
  | sect {room : Nat} {path : InclusionPath} {s : Section}
    (children : ∀ n ∈ s.children, Valid loader room path n) :
    Valid loader (room + 1) path (.sect s)
  | block {room : Nat} {path : InclusionPath} {b : Block}
    (children : ∀ n ∈ b.children, Valid loader room path n) :
    Valid loader (room + 1) path (.block b)
  | inclusion {room : Nat} {path inner : InclusionPath} {i : Inclusion} {t : Template}
    (target : loader.target? i = some t) (enter : path.enter i.name = .ok inner)
    (nodes : ∀ n ∈ t.nodes, Valid loader room inner n) : Valid loader (room + 1) path (.inclusion i)
  | parent {room : Nat} {path : InclusionPath} {i : Inclusion} {scope : List Block}
    (unique : (scope.map Block.name).Nodup)
    (overrides : ∀ b ∈ scope, Valid loader room path (.block b))
    (base : Valid loader (room + 1) path (.inclusion i)) :
    Valid loader (room + 1) path (.parent i scope)

/-- A partial with overrides is valid only if it is without them. -/
theorem Node.Valid.of_includes {loader : Loader} {room : Nat} {path : InclusionPath} {node : Node}
    {i : Inclusion} {o inner : Overrides} (valid : node.Valid loader room path)
    (includes : node.Includes o i inner) : (Node.inclusion i).Valid loader room path := by
  cases includes with
  | plain => exact valid
  | parent =>
    cases valid with
    | parent unique overrides base => exact base

namespace Validation
open Render (bind_eq_ok forM_eq_ok)
variable {loader : Loader} {limit room : Nat} {path : InclusionPath} {loads loads' : List String}
  {node : Node}

/-- Wherever a check one level down succeeds, there is a level left for it, and its nodes are
valid. -/
def Deeper.Validates (loader : Loader) (room : Nat) (deeper : Deeper) : Prop :=
  ∀ path nodes loads loads', deeper path nodes loads = .ok () loads' →
    ∃ left, room = left + 1 ∧ ∀ n ∈ nodes, n.Valid loader left path

/-- The template of a partial: the one settled ahead of time, or else the one looked up. -/
def target (loader : Loader) (i : Inclusion) : CheckM Template :=
  match i.target with
  | some template => pure template
  | none => load loader i.name

/-- Checks the template of a partial, once there is one. -/
def visitTemplate (deeper : Deeper) (path : InclusionPath) (i : Inclusion) (template : Template) :
    CheckM Unit :=
  match path.enter i.name with
  | .error error => throw error
  | .ok path => deeper path template.nodes

theorem visitInclusion_eq (loader : Loader) (deeper : Deeper) (path : InclusionPath)
    (i : Inclusion) :
    visitInclusion loader deeper path i = target loader i >>= visitTemplate deeper path i := by
  unfold visitInclusion target
  cases i.target <;> rfl

theorem target_eq (loader : Loader) (i : Inclusion) (loads : List String) :
    ∃ after, target loader i loads = match loader.target? i with
      | some t => .ok t after
      | none => .error (.partialNotFound i.name) after := by
  unfold target Loader.target?
  cases i.target with
  | some t => exact ⟨loads, rfl⟩
  | none =>
    refine ⟨i.name :: loads, ?_⟩
    cases found : loader i.name <;> simp only [load, found]

theorem valid_of_visitTemplate {deeper : Deeper} (hd : deeper.Validates loader room)
    {i : Inclusion} {t : Template} (target : loader.target? i = some t)
    (h : visitTemplate deeper path i t loads = .ok () loads') :
    (Node.inclusion i).Valid loader room path := by
  unfold visitTemplate at h
  cases enter : path.enter i.name with
  | error e =>
    rw [enter] at h
    cases h
  | ok inner =>
    rw [enter] at h
    obtain ⟨left, rfl, nodes⟩ := hd _ _ _ _ h
    exact .inclusion target enter nodes

theorem valid_of_visitInclusion {deeper : Deeper} (hd : deeper.Validates loader room)
    {i : Inclusion} (h : visitInclusion loader deeper path i loads = .ok () loads') :
    (Node.inclusion i).Valid loader room path := by
  rw [visitInclusion_eq] at h
  obtain ⟨t, mid, found, entered⟩ := bind_eq_ok h
  obtain ⟨after, eq⟩ := target_eq loader i loads
  rw [eq] at found
  cases target : loader.target? i with
  | some u =>
    rw [target] at found
    obtain ⟨rfl, -⟩ := EStateM.Result.ok.inj found
    exact valid_of_visitTemplate hd target entered
  | none =>
    rw [target] at found
    cases found

theorem valid_of_visitOverrides {deeper : Deeper} (hd : deeper.Validates loader room)
    {scope : List Block} {seen : List String}
    (h : visitOverrides deeper path seen scope loads = .ok () loads') :
    (scope.map Block.name).Nodup ∧ (∀ b ∈ scope, b.name ∉ seen) ∧
      ∀ b ∈ scope, ∃ left, room = left + 1 ∧ (Node.block b).Valid loader left path := by
  induction scope generalizing seen loads with
  | nil => simp
  | cons first rest ih =>
    unfold visitOverrides at h
    split at h
    · cases h
    · rename_i new
      obtain ⟨_, mid, here, others⟩ := bind_eq_ok h
      obtain ⟨left, hl, valid⟩ := hd _ _ _ _ here
      obtain ⟨unique, apart, overrides⟩ := ih others
      simp only [List.mem_cons, not_or] at apart
      refine ⟨?_, ?_, ?_⟩
      · rw [List.map_cons, List.nodup_cons]
        refine ⟨fun again => ?_, unique⟩
        obtain ⟨b, mem, same⟩ := List.mem_map.1 again
        exact (apart b mem).1 same
      · intro b mem
        rcases List.mem_cons.1 mem with rfl | mem
        · exact fun again => new (List.contains_iff_mem.2 again)
        · exact (apart b mem).2
      · intro b mem
        rcases List.mem_cons.1 mem with rfl | mem
        · exact ⟨left, hl, valid _ (List.mem_singleton_self _)⟩
        · exact overrides b mem

theorem valid_of_visit {deeper : Deeper} (hd : deeper.Validates loader room)
    (h : visit loader deeper path node loads = .ok () loads') : node.Valid loader room path := by
  cases node with
  | text text => exact .text text
  | interpolation name escaped => exact .interpolation name escaped
  | sect s =>
    obtain ⟨left, rfl, children⟩ := hd _ _ _ _ h
    exact .sect children
  | block b =>
    obtain ⟨left, rfl, children⟩ := hd _ _ _ _ h
    exact .block children
  | inclusion i => exact valid_of_visitInclusion hd h
  | parent i scope =>
    obtain ⟨_, mid, first, included⟩ := bind_eq_ok h
    have base := valid_of_visitInclusion hd included
    obtain ⟨unique, -, overrides⟩ := valid_of_visitOverrides hd first
    cases room with
    | zero => cases base
    | succ left =>
      refine .parent unique (fun b mem => ?_) base
      obtain ⟨other, same, valid⟩ := overrides b mem
      obtain rfl := Nat.succ.inj same
      exact valid

/-- By induction on the levels left: without any there is nothing one level down that could pass. -/
theorem validates_descend (loader : Loader) (limit room : Nat) :
    Deeper.Validates loader room (descend loader limit room) := by
  induction room with
  | zero =>
    intro path nodes loads loads' h
    cases h
  | succ room ih =>
    intro path nodes loads loads' h
    refine ⟨room, rfl, fun n mem => ?_⟩
    obtain ⟨before, mid, passed⟩ := forM_eq_ok h mem
    exact valid_of_visit ih passed

end Validation

theorem Template.valid_of_validate {t : Template} {loader : Loader} {config : Config}
    {path : InclusionPath} (h : (t.validate loader config path).result = .ok ()) :
    ∀ n ∈ t.nodes, n.Valid loader config.maxDepth path := by
  intro n mem
  unfold Template.validate at h
  split at h
  · rename_i checked
    obtain ⟨before, mid, passed⟩ := Render.forM_eq_ok checked mem
    exact Validation.valid_of_visit (Validation.validates_descend _ _ _) passed
  · cases h

/-- A name that passes is registered, and its template is valid below it. -/
theorem Engine.valid_of_validate {e : Engine} {name : String} (h : e.validate name = .ok ()) :
    ∃ t, e.get? name = some t ∧
      ∀ n ∈ t.nodes, n.Valid e.templates.load e.config.maxDepth (.rooted name) := by
  unfold Engine.validate at h
  split at h
  · rename_i t found
    exact ⟨t, found, Template.valid_of_validate h⟩
  · cases h

end Mustache
