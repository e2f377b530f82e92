import Mustache.Proofs.Dependencies.Walks
import Mustache.Proofs.Site
import Mustache.Proofs.Tree

/-! What a walk has left behind it when its agenda is empty: every name on the way is recorded, every
partial has been followed, and the template of a followed partial has been walked itself. -/
namespace Mustache

namespace Dependencies

/-- Every name in `d` is also in `e`. -/
structure Within (d e : Dependencies) : Prop where
  «variables» : d.«variables» ⊆ e.«variables»
  sections : d.sections ⊆ e.sections
  partials : d.partials ⊆ e.partials
  blocks : d.blocks ⊆ e.blocks
  unresolved : d.unresolved ⊆ e.unresolved
  rootNames : d.rootNames ⊆ e.rootNames

variable {d e f : Dependencies} {inSection : Bool} {name : String}

theorem Within.refl (d : Dependencies) : d.Within d :=
  ⟨List.Subset.refl _, List.Subset.refl _, List.Subset.refl _, List.Subset.refl _,
    List.Subset.refl _, List.Subset.refl _⟩

theorem Within.trans (h : d.Within e) (k : e.Within f) : d.Within f :=
  ⟨List.Subset.trans h.variables k.variables, List.Subset.trans h.sections k.sections,
    List.Subset.trans h.partials k.partials, List.Subset.trans h.blocks k.blocks,
    List.Subset.trans h.unresolved k.unresolved, List.Subset.trans h.rootNames k.rootNames⟩

theorem subset_insert (name : String) (set : Names) : set ⊆ set.insert name :=
  fun _ mem => Names.mem_insert.2 (.inr mem)

/-- A name that must come from the root data is recorded as such. -/
def HasRoot (d : Dependencies) (inSection : Bool) (name : String) : Prop :=
  inSection = false → name ≠ "." → name ∈ d.rootNames

theorem HasRoot.within (h : d.HasRoot inSection name) (k : d.Within e) : e.HasRoot inSection name :=
  fun outside named => k.rootNames (h outside named)

theorem within_addRootName (d : Dependencies) (inSection : Bool) (name : String) :
    d.Within (d.addRootName inSection name) := by
  unfold addRootName
  split
  · exact .refl d
  · exact { Within.refl d with rootNames := subset_insert name _ }

theorem hasRoot_addRootName (d : Dependencies) (inSection : Bool) (name : String) :
    (d.addRootName inSection name).HasRoot inSection name := by
  intro outside named
  unfold addRootName
  rw [outside, beq_eq_false_iff_ne.2 named]
  exact Names.mem_insert.2 (.inl rfl)

theorem addVariable_spec (h : (d.addVariable inSection name).Within e) :
    d.Within e ∧ name ∈ e.«variables» ∧ e.HasRoot inSection name := by
  have grown := (within_addRootName { d with «variables» := d.«variables».insert name } inSection
    name).trans h
  refine ⟨{ grown with «variables» := ?_ }, ?_, (hasRoot_addRootName _ inSection name).within h⟩
  · exact List.Subset.trans (subset_insert name _) grown.variables
  · exact grown.variables (Names.mem_insert.2 (.inl rfl))

theorem addSection_spec (h : (d.addSection inSection name).Within e) :
    d.Within e ∧ name ∈ e.sections ∧ e.HasRoot inSection name := by
  have grown := (within_addRootName { d with sections := d.sections.insert name } inSection
    name).trans h
  refine ⟨{ grown with sections := ?_ }, ?_, (hasRoot_addRootName _ inSection name).within h⟩
  · exact List.Subset.trans (subset_insert name _) grown.sections
  · exact grown.sections (Names.mem_insert.2 (.inl rfl))

theorem addPartial_spec (h : (d.addPartial name).Within e) : d.Within e ∧ name ∈ e.partials :=
  ⟨{ h with partials := List.Subset.trans (subset_insert name _) h.partials },
    h.partials (Names.mem_insert.2 (.inl rfl))⟩

theorem addBlock_spec (h : (d.addBlock name).Within e) : d.Within e ∧ name ∈ e.blocks :=
  ⟨{ h with blocks := List.Subset.trans (subset_insert name _) h.blocks },
    h.blocks (Names.mem_insert.2 (.inl rfl))⟩

theorem addUnresolved_spec (h : (d.addUnresolved name).Within e) :
    d.Within e ∧ name ∈ e.unresolved :=
  ⟨{ h with unresolved := List.Subset.trans (subset_insert name _) h.unresolved },
    h.unresolved (Names.mem_insert.2 (.inl rfl))⟩

end Dependencies

namespace Collection
variable {loader : Option Loader} {entries : Catalog} {w after : Walk} {agenda rest : Agenda}
  {inSection : Bool} {i : Inclusion} {n : Node}

/-- A node is done with: its names and those inside of it are recorded, and its partials have been
followed. -/
inductive Walked (w : Walk) : Bool → Node → Prop
  | text {inSection : Bool} (text : String) : Walked w inSection (.text text)
  | interpolation {inSection : Bool} {name : String} (escaped : Bool)
    (recorded : name ∈ w.found.«variables») (root : w.found.HasRoot inSection name) :
    Walked w inSection (.interpolation name escaped)
  | sect {inSection : Bool} {s : Section} (recorded : s.name ∈ w.found.sections)
    (root : w.found.HasRoot inSection s.name) (children : ∀ n ∈ s.children, Walked w true n) :
    Walked w inSection (.sect s)
  | inclusion {inSection : Bool} {i : Inclusion} (recorded : i.name ∈ w.found.partials)
    (followed : (i.name, inSection) ∈ w.visited) : Walked w inSection (.inclusion i)
  | parent {inSection : Bool} {i : Inclusion} {scope : List Block}
    (overrides : ∀ b ∈ scope, Walked w inSection (.block b))
    (base : Walked w inSection (.inclusion i)) : Walked w inSection (.parent i scope)
  | block {inSection : Bool} {b : Block} (recorded : b.name ∈ w.found.blocks)
    (children : ∀ n ∈ b.children, Walked w inSection n) : Walked w inSection (.block b)

/-- How templates are found that are not settled: with the loader, if there is one. -/
def lookup (loader : Option Loader) : Loader := loader.getD .empty

/-- The nodes that follow a partial: those of its template, if it has one. -/
def behind (loader : Option Loader) (i : Inclusion) : List Node :=
  ((lookup loader).target? i).elim [] Template.nodes

/-- A partial that the loader is asked for and does not have. -/
def Misses (loader : Option Loader) (i : Inclusion) : Prop :=
  i.target = none ∧ loader.map (· i.name) = some none

theorem target?_of_misses (h : Misses loader i) : (lookup loader).target? i = none := by
  obtain ⟨missing, absent⟩ := h
  obtain ⟨l, rfl, absent⟩ := Option.map_eq_some_iff.1 absent
  rw [Loader.target?, missing]
  exact Option.some.inj absent

/-- A partial that is followed for the first time: it is recorded, as unresolved too if the loader
does not have it, and the nodes behind it come next. -/
theorem follow_of_unvisited (loader : Option Loader)
    (new : ¬ w.visited.contains (i.name, inSection)) :
    ∃ found loads,
      follow loader w inSection i =
        (⟨found, (i.name, inSection) :: w.visited, loads⟩, .ofNodes inSection (behind loader i)) ∧
      (found = w.found.addPartial i.name ∧ ¬ Misses loader i ∨
        found = (w.found.addPartial i.name).addUnresolved i.name ∧ Misses loader i) := by
  unfold follow behind Misses Loader.target?
  rw [if_neg new]
  cases settled : i.target with
  | some t => exact ⟨_, w.loads, rfl, .inl ⟨rfl, by simp⟩⟩
  | none =>
    cases loader with
    | none => exact ⟨_, w.loads, rfl, .inl ⟨rfl, by simp⟩⟩
    | some l =>
      simp only [lookup, Option.getD_some, Option.map_some]
      cases found : l i.name with
      | some t => exact ⟨_, i.name :: w.loads, rfl, .inl ⟨rfl, by simp⟩⟩
      | none => exact ⟨_, i.name :: w.loads, rfl, .inr ⟨rfl, trivial, rfl⟩⟩

/-- A property of the nodes that a walk meets, and of whether sections lie around them there: it goes
from a node to its parts, from a partial with overrides to the partial, and to the nodes behind it. -/
structure Spreads (loader : Option Loader) (met : Bool → Node → Prop) : Prop where
  part {inSection : Bool} {n m : Node} (h : met inSection n) (mem : m ∈ n.parts) :
    met (inSection || n.isSection) m
  base {inSection : Bool} {i : Inclusion} {scope : List Block} (h : met inSection (.parent i scope)) :
    met inSection (.inclusion i)
  behind {inSection : Bool} {i : Inclusion} {n : Node} (h : met inSection (.inclusion i))
    (mem : n ∈ behind loader i) : met inSection n

theorem Agenda.ofBlocks_eq (inSection : Bool) (blocks : List Block) :
    ofBlocks inSection blocks = ofNodes inSection (blocks.map .block) := by
  simp only [ofBlocks, ofNodes, List.map_map, Function.comp_def]

theorem Agenda.forall_ofNodes {met : Bool → Node → Prop} {nodes : List Node} :
    (∀ item ∈ ofNodes inSection nodes, met item.1 item.2) ↔ ∀ n ∈ nodes, met inSection n :=
  List.forall_mem_map

theorem Spreads.advance {met : Bool → Node → Prop} (spreads : Spreads loader met) (w : Walk)
    {item : Bool × Node} (h : met item.1 item.2) :
    ∀ next ∈ (advance loader w item).2, met next.1 next.2 := by
  obtain ⟨inSection, n⟩ := item
  cases n with
  | text | interpolation => exact List.forall_mem_nil _
  | sect s => exact Agenda.forall_ofNodes.2 fun m mem => Bool.or_true inSection ▸ spreads.part h mem
  | block b => exact Agenda.forall_ofNodes.2 fun m mem => Bool.or_false inSection ▸ spreads.part h mem
  | parent i overrides =>
    change ∀ next ∈ Agenda.ofBlocks inSection overrides ++ [(inSection, .inclusion i)], _
    rw [Agenda.ofBlocks_eq]
    refine List.forall_mem_append.2 ⟨Agenda.forall_ofNodes.2 fun m mem => ?_,
      List.forall_mem_singleton.2 (spreads.base h)⟩
    exact Bool.or_false inSection ▸ spreads.part h mem
  | inclusion i =>
    change ∀ next ∈ (follow loader w inSection i).2, _
    by_cases seen : w.visited.contains (i.name, inSection)
    · rw [follow, if_pos seen]
      exact List.forall_mem_nil _
    · obtain ⟨found, loads, eq, -⟩ := follow_of_unvisited loader seen
      rw [eq]
      exact Agenda.forall_ofNodes.2 fun m mem => spreads.behind h mem

/-- What following a partial comes to: the nodes behind it are walked, and a partial that is missed is
recorded as unresolved. -/
structure Pursued (loader : Option Loader) (w : Walk) (inSection : Bool) (i : Inclusion) : Prop where
  nodes : ∀ n ∈ behind loader i, Walked w inSection n
  missing (misses : Misses loader i) : i.name ∈ w.found.unresolved

/-- What a walk adds to what was there before: it is done with its agenda, and of the partials met
under a name, with sections around them or without, it has followed one. -/
structure Exhausts (loader : Option Loader) (met : Bool → Node → Prop) (w : Walk) (agenda : Agenda)
    (after : Walk) : Prop where
  found : w.found.Within after.found
  visited : w.visited ⊆ after.visited
  agenda : ∀ item ∈ agenda, Walked after item.1 item.2
  followed : ∀ visit ∈ after.visited, visit ∈ w.visited ∨
    ∃ i, i.name = visit.1 ∧ met visit.2 (.inclusion i) ∧ Pursued loader after visit.2 i

section Exhausting
variable {met : Bool → Node → Prop}

theorem Exhausts.cons {item : Bool × Node} (h : Exhausts loader met w rest after)
    (done : Walked after item.1 item.2) : Exhausts loader met w (item :: rest) after :=
  { h with agenda := List.forall_mem_cons.2 ⟨done, h.agenda⟩ }

theorem Exhausts.of_ofNodes {nodes : List Node}
    (h : Exhausts loader met w (.ofNodes inSection nodes ++ rest) after) :
    (∀ n ∈ nodes, Walked after inSection n) ∧ Exhausts loader met w rest after := by
  obtain ⟨first, others⟩ := List.forall_mem_append.1 h.agenda
  exact ⟨Agenda.forall_ofNodes.1 first, { h with agenda := others }⟩

/-- Following a partial is the only step that counts partials as followed. -/
theorem Exhausts.of_follow (here : met inSection (.inclusion i))
    (h : Exhausts loader met (follow loader w inSection i).1
      ((follow loader w inSection i).2 ++ rest) after) :
    Exhausts loader met w ((inSection, .inclusion i) :: rest) after := by
  by_cases seen : w.visited.contains (i.name, inSection)
  · rw [follow, if_pos seen] at h
    obtain ⟨grown, recorded⟩ := Dependencies.addPartial_spec h.found
    have visited := h.visited (List.contains_iff_mem.1 seen)
    exact Exhausts.cons { h with found := grown } (.inclusion recorded visited)
  · obtain ⟨found, loads, eq, adds⟩ := follow_of_unvisited loader seen
    rw [eq] at h
    obtain ⟨nodes, later⟩ := h.of_ofNodes
    obtain ⟨named, missing⟩ : (w.found.addPartial i.name).Within after.found ∧
        (Misses loader i → i.name ∈ after.found.unresolved) := by
      rcases adds with ⟨rfl, found⟩ | ⟨rfl, -⟩
      · exact ⟨later.found, fun misses => (found misses).elim⟩
      · exact (Dependencies.addUnresolved_spec later.found).imp_right fun mem _ => mem
    obtain ⟨grown, recorded⟩ := Dependencies.addPartial_spec named
    have visited : (i.name, inSection) ∈ after.visited := later.visited List.mem_cons_self
    refine ⟨grown, fun visit mem => later.visited (List.mem_cons_of_mem _ mem),
      List.forall_mem_cons.2 ⟨.inclusion recorded visited, later.agenda⟩, fun visit mem => ?_⟩
    rcases later.followed visit mem with old | followed
    · rcases List.mem_cons.1 old with rfl | old
      · exact .inr ⟨i, rfl, here, nodes, missing⟩
      · exact .inl old
    · exact .inr followed

/-- One case for each kind of node. -/
theorem Exhausts.of_advance {item : Bool × Node} (here : met item.1 item.2)
    (h : Exhausts loader met (advance loader w item).1 ((advance loader w item).2 ++ rest) after) :
    Exhausts loader met w (item :: rest) after := by
  obtain ⟨inSection, n⟩ := item
  cases n with
  | text text => exact h.cons (.text text)
  | interpolation name escaped =>
    obtain ⟨grown, recorded, root⟩ := Dependencies.addVariable_spec h.found
    exact Exhausts.cons { h with found := grown } (.interpolation escaped recorded root)
  | sect s =>
    obtain ⟨children, later⟩ := h.of_ofNodes
    obtain ⟨grown, recorded, root⟩ := Dependencies.addSection_spec later.found
    exact Exhausts.cons { later with found := grown } (.sect recorded root children)
  | block b =>
    obtain ⟨children, later⟩ := h.of_ofNodes
    obtain ⟨grown, recorded⟩ := Dependencies.addBlock_spec later.found
    exact Exhausts.cons { later with found := grown } (.block recorded children)
  | inclusion i => exact h.of_follow here
  | parent i overrides =>
    obtain ⟨first, others⟩ := List.forall_mem_append.1 h.agenda
    obtain ⟨blocks, included⟩ := List.forall_mem_append.1 first
    rw [Agenda.ofBlocks_eq, Agenda.forall_ofNodes] at blocks
    refine Exhausts.cons { h with agenda := others } (.parent (fun b mem => ?_) ?_)
    · exact blocks _ (List.mem_map_of_mem mem)
    · exact included _ (List.mem_singleton_self _)

/-- By induction along the walk: each step hands on what it has taken from the agenda. -/
theorem exhausts_of_walks (spreads : Spreads loader met) (walks : Walks loader w agenda after)
    (h : ∀ item ∈ agenda, met item.1 item.2) : Exhausts loader met w agenda after := by
  induction walks with
  | done w =>
    exact ⟨Dependencies.Within.refl _, List.Subset.refl _, nofun, fun _ mem => .inl mem⟩
  | step _ ih =>
    obtain ⟨here, others⟩ := List.forall_mem_cons.1 h
    have later := ih (List.forall_mem_append.2 ⟨spreads.advance _ here, others⟩)
    exact later.of_advance here

end Exhausting

/-- What following a partial of the catalog comes to: its nodes are walked, or it is recorded as
unresolved. -/
structure Followed (entries : Catalog) (w : Walk) (visit : Visit) : Prop where
  nodes {t : Template} (found : Entries.get? visit.1 entries = some t) :
    ∀ n ∈ t.nodes, Walked w visit.2 n
  missing (absent : Entries.get? visit.1 entries = none) : visit.1 ∈ w.found.unresolved

/-- What a walk of an agenda adds to what was there before. -/
structure Completes (entries : Catalog) (w : Walk) (agenda : Agenda) (after : Walk) : Prop where
  found : w.found.Within after.found
  visited : w.visited ⊆ after.visited
  agenda : ∀ item ∈ agenda, Walked after item.1 item.2
  followed : ∀ visit ∈ after.visited, visit ∈ w.visited ∨ Followed entries after visit

/-- No partial is settled on the agenda. -/
def Agenda.Unsettled (agenda : Agenda) : Prop :=
  ∀ item ∈ agenda, Node.Everywhere Node.Unsettled [item.2]

theorem Agenda.Unsettled.ofNodes {nodes : List Node} {rest : Agenda}
    (h : Node.Everywhere Node.Unsettled nodes) (others : rest.Unsettled) :
    Unsettled (ofNodes inSection nodes ++ rest) := by
  refine List.forall_mem_append.2 ⟨fun item mem => ?_, others⟩
  obtain ⟨n, hn, rfl⟩ := List.mem_map.1 mem
  exact Node.everywhere_iff_forall.1 h n hn

theorem target_of_unsettled (h : Node.Everywhere Node.Unsettled [.inclusion i]) : i.target = none :=
  (Node.everywhere_cons.1 h).1

/-- The template of a partial that is not settled is the one of its name. -/
theorem behind_of_unsettled (h : Node.Everywhere Node.Unsettled [.inclusion i]) :
    behind (some entries.load) i = (Entries.get? i.name entries).elim [] Template.nodes := by
  rw [behind, Loader.target?, target_of_unsettled h]
  rfl

/-- Where no partial is settled, none is met that is. -/
theorem spreads_unsettled
    (catalog : ∀ name t, Entries.get? name entries = some t →
      Node.Everywhere Node.Unsettled t.nodes) :
    Spreads (some entries.load) fun _ n => Node.Everywhere Node.Unsettled [n] where
  part h mem := Node.everywhere_iff_forall.1 (Node.everywhere_cons.1 h).2.1 _ mem
  base h := Node.everywhere_cons.2 ⟨(Node.everywhere_cons.1 h).1, Node.everywhere_nil,
    Node.everywhere_nil⟩
  behind {_ i n} h mem := by
    rw [behind_of_unsettled h] at mem
    cases found : Entries.get? i.name entries with
    | none =>
      rw [found] at mem
      cases mem
    | some t =>
      rw [found] at mem
      exact Node.everywhere_iff_forall.1 (catalog _ t found) n mem

/-- A walk over templates without settled partials has gone on into every partial it met. -/
theorem completes_run {agenda : Agenda}
    (catalog : ∀ name t, Entries.get? name entries = some t →
      Node.Everywhere Node.Unsettled t.nodes)
    (unsettled : agenda.Unsettled) :
    Completes entries w agenda (run (some entries) w agenda) := by
  have walks : Walks ((some entries).map Catalog.load) w agenda (run (some entries) w agenda) :=
    walks_iff_run.2 rfl
  have all := exhausts_of_walks (spreads_unsettled catalog) walks unsettled
  refine ⟨all.found, all.visited, all.agenda, fun visit mem => (all.followed visit mem).imp_right ?_⟩
  rintro ⟨i, named, met, pursued⟩
  refine ⟨fun {t} found n hn => pursued.nodes n ?_, fun absent => ?_⟩
  · rw [behind_of_unsettled met, named, found]
    exact hn
  · rw [← named] at absent ⊢
    exact pursued.missing ⟨target_of_unsettled met, congrArg some absent⟩

end Collection
end Mustache
