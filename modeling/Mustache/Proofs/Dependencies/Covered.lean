import Mustache.Proofs.Dependencies.Walked
import Mustache.Proofs.Render.Tandem

/-! What a walk that has come to its end covers. A node that it has done with outside of sections may
be rendered anywhere; one that it met inside of a section only is covered where a section is being
rendered. From what is covered a render comes to nothing that is not. -/
namespace Mustache.Collection

/-- A walk at its end, over templates without settled partials: it has gone on into every partial it
met, except for those named in `own`. -/
structure Ended (entries : Catalog) (own : List String) (w : Walk) : Prop where
  catalog {name : String} {t : Template} (found : Entries.get? name entries = some t) :
    Node.Everywhere Node.Unsettled t.nodes
  followed {visit : Visit} (mem : visit ∈ w.visited) : visit.1 ∈ own ∨ Followed entries w visit

/-- The walk has done with a node in a way that serves a render of it, inside of some section if
`inside` holds. -/
def Covers (w : Walk) (inside : Bool) (n : Node) : Prop :=
  Node.Everywhere Node.Unsettled [n] ∧
    ∃ inSection, (inSection = true → inside = true) ∧ Walked w inSection n

variable {entries : Catalog} {own : List String} {w : Walk} {inside : Bool}

/-- A walk that starts with nothing followed but what is in `own` has gone on into all else. -/
theorem Completes.ended {before : Walk} {agenda : Agenda} (h : Completes entries before agenda w)
    (catalog : ∀ name t, Entries.get? name entries = some t →
      Node.Everywhere Node.Unsettled t.nodes)
    (start : ∀ visit ∈ before.visited, visit.1 ∈ own) : Ended entries own w :=
  ⟨catalog _ _, fun mem => (h.followed _ mem).imp_left (start _)⟩

theorem Ended.mono {more : List String} (h : Ended entries own w) (sub : own ⊆ more) :
    Ended entries more w :=
  ⟨h.catalog, fun mem => (h.followed mem).imp_left fun here => sub here⟩

theorem covers_of_walked {nodes : List Node} {inSection : Bool}
    (unsettled : Node.Everywhere Node.Unsettled nodes) (serves : inSection = true → inside = true)
    (walked : ∀ n ∈ nodes, Walked w inSection n) : ∀ n ∈ nodes, Covers w inside n :=
  fun n mem => ⟨Node.everywhere_iff_forall.1 unsettled n mem, inSection, serves, walked n mem⟩

namespace Covers
variable {i : Inclusion} {scope : List Block} {t : Template}

theorem mono {n : Node} {further : Bool} (h : Covers w inside n)
    (more : inside = true → further = true) : Covers w further n := by
  obtain ⟨unsettled, inSection, serves, walked⟩ := h
  exact ⟨unsettled, inSection, fun yes => more (serves yes), walked⟩

theorem recorded_variable {name : String} {escaped : Bool}
    (h : Covers w inside (.interpolation name escaped)) :
    name ∈ w.found.«variables» ∧ w.found.HasRoot inside name := by
  obtain ⟨-, inSection, serves, walked⟩ := h
  cases walked with
  | interpolation _ recorded root =>
    refine ⟨recorded, fun outside => root ?_⟩
    exact Bool.eq_false_iff.2 fun yes => Bool.eq_false_iff.1 outside (serves yes)

/-- The children of a section are rendered inside of it. -/
theorem sect {s : Section} (h : Covers w inside (.sect s)) :
    s.name ∈ w.found.sections ∧ ∀ n ∈ s.children, Covers w true n := by
  obtain ⟨unsettled, _, -, walked⟩ := h
  cases walked with
  | sect recorded _ children =>
    exact ⟨recorded,
      covers_of_walked (Node.everywhere_cons.1 unsettled).2.1 (fun _ => rfl) children⟩

theorem block {b : Block} (h : Covers w inside (.block b)) :
    b.name ∈ w.found.blocks ∧ ∀ n ∈ b.children, Covers w inside n := by
  obtain ⟨unsettled, _, serves, walked⟩ := h
  cases walked with
  | block recorded children =>
    exact ⟨recorded, covers_of_walked (Node.everywhere_cons.1 unsettled).2.1 serves children⟩

theorem parent (h : Covers w inside (.parent i scope)) :
    Covers w inside (.inclusion i) ∧ ∀ b ∈ scope, Covers w inside (.block b) := by
  obtain ⟨unsettled, inSection, serves, walked⟩ := h
  obtain ⟨open_target, parts, -⟩ := Node.everywhere_cons.1 unsettled
  cases walked with
  | parent overrides base =>
    refine ⟨⟨?_, inSection, serves, base⟩, fun b mem => ⟨?_, inSection, serves, overrides b mem⟩⟩
    · exact Node.everywhere_cons.2 ⟨open_target, Node.everywhere_nil, Node.everywhere_nil⟩
    · exact Node.everywhere_iff_forall.1 parts _ (List.mem_map_of_mem mem)

/-- The partial that a node includes, with or without overrides of its own. -/
theorem included {n : Node} {o inner : Overrides} (h : Covers w inside n)
    (includes : n.Includes o i inner) : Covers w inside (.inclusion i) := by
  cases includes with
  | plain => exact h
  | parent => exact h.parent.1

theorem unsettled (h : Covers w inside (.inclusion i)) : i.target = none :=
  (Node.everywhere_cons.1 h.1).1

theorem recorded_partial (h : Covers w inside (.inclusion i)) : i.name ∈ w.found.partials := by
  obtain ⟨-, _, -, walked⟩ := h
  cases walked with
  | inclusion recorded => exact recorded

section Followed
variable {loader : Loader} (ended : Ended entries own w) (h : Covers w inside (.inclusion i))
  (same : ∀ name ∈ w.found.partials, loader name = Entries.get? name entries)
  (other : i.name ∉ own)
include ended h same other

/-- The template of a partial is covered where the partial is. -/
theorem template (target : loader.target? i = some t) : ∀ n ∈ t.nodes, Covers w inside n := by
  rw [Loader.target?, h.unsettled] at target
  have found := (same _ h.recorded_partial).symm.trans target
  obtain ⟨-, inSection, serves, walked⟩ := h
  cases walked with
  | inclusion _ visited =>
    have followed := (ended.followed visited).resolve_left other
    exact covers_of_walked (ended.catalog found) serves (followed.nodes found)

theorem recorded_missing (target : loader.target? i = none) : i.name ∈ w.found.unresolved := by
  rw [Loader.target?, h.unsettled] at target
  have absent := (same _ h.recorded_partial).symm.trans target
  obtain ⟨-, inSection, -, walked⟩ := h
  cases walked with
  | inclusion _ visited => exact ((ended.followed visited).resolve_left other).missing absent

end Followed

end Covers

/-- Where overrides are covered, so is what stands for a block. -/
theorem covers_content {o : Overrides} (h : o.All fun b => Covers w inside (.block b)) {b : Block}
    (here : Covers w inside (.block b)) :
    (∀ n ∈ (o.content b).1.children, Covers w inside n) ∧
      (o.content b).2.All fun b => Covers w inside (.block b) := by
  unfold Overrides.content
  cases found : o.resolve? b.name with
  | none => exact ⟨here.block.2, h⟩
  | some result =>
    obtain ⟨override, enclosing⟩ := h.of_resolve? found
    exact ⟨override.block.2, enclosing⟩

end Mustache.Collection
