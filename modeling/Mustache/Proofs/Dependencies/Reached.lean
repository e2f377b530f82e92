import Mustache.Node.Equality
import Mustache.Proofs.Dependencies.Walked
import Mustache.Proofs.Supply
import Mustache.Scripted

/-! The dependencies that are collected are the names of the nodes that the tree and its partials
supply, and the root names are those of the variables and sections to which a way leads outside of all
sections. The walk follows one partial under each name, once outside and once inside of sections, so
this is so where a name stands for one template: always where no partial is settled ahead of time. -/
namespace Mustache

/-- The nodes that a tree and its partials are made of, and whether there is a section on the way to
them. -/
inductive Loader.SuppliesIn (loader : Loader) (root : List Node) : Bool → Node → Prop
  | root {n : Node} (mem : n ∈ root) : SuppliesIn loader root false n
  | part {inSection : Bool} {n m : Node} (outer : SuppliesIn loader root inSection n)
    (mem : m ∈ n.parts) : SuppliesIn loader root (inSection || n.isSection) m
  | base {inSection : Bool} {i : Inclusion} {scope : List Block}
    (outer : SuppliesIn loader root inSection (.parent i scope)) :
    SuppliesIn loader root inSection (.inclusion i)
  | body {inSection : Bool} {n : Node} {i : Inclusion} {t : Template}
    (outer : SuppliesIn loader root inSection (.inclusion i)) (target : loader.target? i = some t)
    (mem : n ∈ t.nodes) : SuppliesIn loader root inSection n

namespace Loader
variable {loader : Loader} {root : List Node} {inSection : Bool} {n : Node}

theorem supplies_iff : loader.Supplies root n ↔ ∃ inSection, loader.SuppliesIn root inSection n := by
  constructor
  · intro h
    induction h with
    | root mem => exact ⟨_, .root mem⟩
    | part _ mem ih => exact ih.imp' _ fun _ outer => .part outer mem
    | base _ ih => exact ih.imp fun _ outer => .base outer
    | body _ target mem ih => exact ih.imp fun _ outer => .body outer target mem
  · rintro ⟨inSection, h⟩
    induction h with
    | root mem => exact .root mem
    | part _ mem ih => exact .part ih mem
    | base _ ih => exact .base ih
    | body _ target mem ih => exact .body ih target mem

/-- Two partials of one name that are met in the same way, outside or inside of sections, lead to the
same tree, or neither leads to any. -/
def Coherent (loader : Loader) (root : List Node) : Prop :=
  ∀ ⦃inSection : Bool⦄ ⦃i j : Inclusion⦄, loader.SuppliesIn root inSection (.inclusion i) →
    loader.SuppliesIn root inSection (.inclusion j) → i.name = j.name →
      (loader.target? i).map Template.nodes = (loader.target? j).map Template.nodes

section Unsettled
variable (tree : Node.Everywhere Node.Unsettled root)
  (loaded : ∀ name t, loader name = some t → Node.Everywhere Node.Unsettled t.nodes)
include tree loaded

theorem target_of_supplied {i : Inclusion} (h : loader.Supplies root (.inclusion i)) :
    i.target = none := by
  refine h.everywhere id (fun {i t} here target => ?_) tree _ (.top (List.mem_singleton_self _))
  have missing : i.target = none := here
  rw [target?, missing] at target
  exact loaded i.name t target

/-- Partials that are looked up by their names lead to what the loader has under the name. -/
theorem coherent_of_unsettled : loader.Coherent root := by
  intro inSection i j hi hj same
  have here := target_of_supplied tree loaded (supplies_iff.2 ⟨inSection, hi⟩)
  have there := target_of_supplied tree loaded (supplies_iff.2 ⟨inSection, hj⟩)
  rw [target?, target?, here, there, same]

end Unsettled

end Loader

/-- What a name stands for in a template. -/
inductive Role
  | interpolation | sect | inclusion | block

/-- The name of a node, and what it stands for. The name of a partial with overrides is that of the
partial. -/
def Node.named? : Node → Option (Role × String)
  | .interpolation name _ => some (.interpolation, name)
  | .sect s => some (.sect, s.name)
  | .inclusion i => some (.inclusion, i.name)
  | .block b => some (.block, b.name)
  | .text _ | .parent _ _ => none

/-- A node that looks a name up in the data. -/
def Node.Reads (n : Node) (name : String) : Prop :=
  n.named? = some (.interpolation, name) ∨ n.named? = some (.sect, name)

namespace Dependencies
variable {d : Dependencies} {role other : Role} {name x : String}

/-- The names listed for what they stand for. -/
def under (d : Dependencies) : Role → Names
  | .interpolation => d.«variables»
  | .sect => d.sections
  | .inclusion => d.partials
  | .block => d.blocks

/-- The names listed are those of the nodes that a tree supplies, each under what it stands for. -/
structure Lists (d : Dependencies) (loader : Option Loader) (root : List Node) : Prop where
  names (role : Role) {name : String} : name ∈ d.under role ↔
    ∃ n : Node, n.named? = some (role, name) ∧ (Collection.lookup loader).Supplies root n
  unresolved {name : String} : name ∈ d.unresolved ↔
    ∃ i, i.name = name ∧ Collection.Misses loader i ∧
      (Collection.lookup loader).Supplies root (.inclusion i)
  rootNames {name : String} : name ∈ d.rootNames ↔ name ≠ "." ∧
    ∃ n : Node, n.Reads name ∧ (Collection.lookup loader).SuppliesIn root false n

/-- Adds a name for what it stands for, and nothing else. -/
def list (d : Dependencies) (role : Role) (name : String) : Dependencies :=
  match role with
  | .interpolation => { d with «variables» := d.«variables».insert name }
  | .sect => { d with sections := d.sections.insert name }
  | .inclusion => d.addPartial name
  | .block => d.addBlock name

theorem mem_under_list :
    x ∈ (d.list role name).under other ↔ (other = role ∧ x = name) ∨ x ∈ d.under other := by
  cases role <;> cases other <;> simp [list, under, addPartial, addBlock]

theorem unresolved_list : (d.list role name).unresolved = d.unresolved := by cases role <;> rfl

theorem rootNames_list : (d.list role name).rootNames = d.rootNames := by cases role <;> rfl

end Dependencies

namespace Collection
variable {loader : Option Loader} {met : Bool → Node → Prop} {d : Dependencies} {w after : Walk}
  {agenda : Agenda} {root : List Node} {inSection : Bool} {role : Role} {name : String} {n m : Node}

theorem mem_behind {i : Inclusion} :
    n ∈ behind loader i ↔ ∃ t, (lookup loader).target? i = some t ∧ n ∈ t.nodes := by
  unfold behind
  cases (lookup loader).target? i <;> simp

theorem spreads_supplied (loader : Option Loader) (root : List Node) :
    Spreads loader ((lookup loader).SuppliesIn root) where
  part h mem := .part h mem
  base h := .base h
  behind h mem := by
    obtain ⟨t, target, mem⟩ := mem_behind.1 mem
    exact .body h target mem

/-- What spreads from the top to what is met holds of all that the tree supplies. -/
theorem Spreads.of_supplied (spreads : Spreads loader met) (top : ∀ n ∈ root, met false n)
    (h : (lookup loader).SuppliesIn root inSection n) : met inSection n := by
  induction h with
  | root mem => exact top _ mem
  | part _ mem ih => exact spreads.part ih mem
  | base _ ih => exact spreads.base ih
  | body _ target mem ih => exact spreads.behind ih (mem_behind.2 ⟨_, target, mem⟩)

/-- Every name that is recorded is that of a node that is met. -/
structure Recorded (loader : Option Loader) (met : Bool → Node → Prop) (d : Dependencies) :
    Prop where
  names (role : Role) {name : String} (h : name ∈ d.under role) :
    ∃ n : Node, n.named? = some (role, name) ∧ ∃ inSection, met inSection n
  unresolved {name : String} (h : name ∈ d.unresolved) :
    ∃ i, i.name = name ∧ Misses loader i ∧ ∃ inSection, met inSection (.inclusion i)
  rootNames {name : String} (h : name ∈ d.rootNames) :
    name ≠ "." ∧ ∃ n : Node, n.Reads name ∧ met false n

namespace Recorded

theorem empty : Recorded loader met .empty where
  names role _ mem := by cases role <;> cases mem
  unresolved mem := nomatch mem
  rootNames mem := nomatch mem

theorem list (h : Recorded loader met d) (named : n.named? = some (role, name))
    (here : met inSection n) : Recorded loader met (d.list role name) where
  names other _ mem := by
    rcases Dependencies.mem_under_list.1 mem with ⟨rfl, rfl⟩ | mem
    · exact ⟨n, named, inSection, here⟩
    · exact h.names other mem
  unresolved mem := h.unresolved (Dependencies.unresolved_list ▸ mem)
  rootNames mem := h.rootNames (Dependencies.rootNames_list ▸ mem)

theorem addRootName (h : Recorded loader met d) (reads : n.Reads name) (here : met inSection n) :
    Recorded loader met (d.addRootName inSection name) := by
  unfold Dependencies.addRootName
  split
  · exact h
  · rename_i outside
    obtain ⟨rfl, named⟩ : inSection = false ∧ name ≠ "." := by simpa using outside
    refine ⟨fun role _ mem => h.names role ?_, h.unresolved, fun mem => ?_⟩
    · cases role <;> exact mem
    · rcases Names.mem_insert.1 mem with rfl | mem
      · exact ⟨named, n, reads, here⟩
      · exact h.rootNames mem

theorem addUnresolved (h : Recorded loader met d) {i : Inclusion} (misses : Misses loader i)
    (here : met inSection (.inclusion i)) : Recorded loader met (d.addUnresolved i.name) := by
  refine ⟨fun role _ mem => h.names role ?_, fun mem => ?_, h.rootNames⟩
  · cases role <;> exact mem
  · rcases Names.mem_insert.1 mem with rfl | mem
    · exact ⟨i, rfl, misses, inSection, here⟩
    · exact h.unresolved mem

theorem follow (h : Recorded loader met w.found) {i : Inclusion}
    (here : met inSection (.inclusion i)) :
    Recorded loader met (follow loader w inSection i).1.found := by
  by_cases seen : w.visited.contains (i.name, inSection)
  · rw [Collection.follow, if_pos seen]
    exact h.list rfl here
  · obtain ⟨found, loads, eq, adds⟩ := follow_of_unvisited loader seen
    rw [eq]
    rcases adds with ⟨rfl, -⟩ | ⟨rfl, misses⟩
    · exact h.list rfl here
    · exact (h.list rfl here).addUnresolved misses here

/-- One case for each kind of node. -/
theorem advance (h : Recorded loader met w.found) {item : Bool × Node} (here : met item.1 item.2) :
    Recorded loader met (advance loader w item).1.found := by
  obtain ⟨inSection, n⟩ := item
  cases n with
  | text | parent => exact h
  | interpolation name escaped => exact (h.list rfl here).addRootName (.inl rfl) here
  | sect s => exact (h.list rfl here).addRootName (.inr rfl) here
  | block b => exact h.list rfl here
  | inclusion i => exact h.follow here

/-- By induction along the walk. -/
theorem of_walks (spreads : Spreads loader met) (walks : Walks loader w agenda after)
    (met_agenda : ∀ item ∈ agenda, met item.1 item.2) (h : Recorded loader met w.found) :
    Recorded loader met after.found := by
  induction walks with
  | done => exact h
  | step _ ih =>
    obtain ⟨here, others⟩ := List.forall_mem_cons.1 met_agenda
    exact ih (List.forall_mem_append.2 ⟨spreads.advance _ here, others⟩) (h.advance here)

end Recorded

theorem Walked.part (h : Walked w inSection n) (mem : m ∈ n.parts) :
    Walked w (inSection || n.isSection) m := by
  cases h with
  | text | interpolation | inclusion => cases mem
  | sect _ _ children => exact (Bool.or_true inSection).symm ▸ children m mem
  | block _ children => exact (Bool.or_false inSection).symm ▸ children m mem
  | parent overrides =>
    obtain ⟨b, hb, rfl⟩ := List.mem_map.1 mem
    exact (Bool.or_false inSection).symm ▸ overrides b hb

/-- Where a name stands for one template, the walk is done with all that the tree supplies. By
induction on the way there: behind a partial, the walk has followed one of the same name, and so the
same nodes. -/
theorem walked_of_supplied (coherent : (lookup loader).Coherent root)
    (all : Exhausts loader ((lookup loader).SuppliesIn root) ⟨.empty, [], []⟩ (.ofNodes false root) w)
    (h : (lookup loader).SuppliesIn root inSection n) : Walked w inSection n := by
  induction h with
  | root mem => exact Agenda.forall_ofNodes.1 all.agenda _ mem
  | part _ mem ih => exact ih.part mem
  | base _ ih =>
    cases ih with
    | parent _ base => exact base
  | @body inSection n i t outer target mem ih =>
    cases ih with
    | inclusion _ followed =>
      obtain ⟨j, same, met, pursued⟩ := (all.followed _ followed).resolve_left List.not_mem_nil
      refine pursued.nodes n ?_
      have alike := coherent outer met same.symm
      rw [target] at alike
      obtain ⟨u, there, nodes⟩ := Option.map_eq_some_iff.1 alike.symm
      exact mem_behind.2 ⟨u, there, nodes.symm ▸ mem⟩

/-- A partial that is missed is recorded as unresolved. -/
theorem unresolved_of_supplied (coherent : (lookup loader).Coherent root)
    (all : Exhausts loader ((lookup loader).SuppliesIn root) ⟨.empty, [], []⟩ (.ofNodes false root) w)
    {i : Inclusion} (h : (lookup loader).SuppliesIn root inSection (.inclusion i))
    (misses : Misses loader i) : i.name ∈ w.found.unresolved := by
  cases walked_of_supplied coherent all h with
  | inclusion _ followed =>
    obtain ⟨j, same, met, pursued⟩ := (all.followed _ followed).resolve_left List.not_mem_nil
    have alike := coherent h met same.symm
    rw [target?_of_misses misses] at alike
    have missing : (lookup loader).target? j = none := Option.map_eq_none_iff.1 alike.symm
    rw [← show j.name = i.name from same]
    refine pursued.missing ⟨?_, ?_⟩
    · cases settled : j.target with
      | none => rfl
      | some t =>
        rw [Loader.target?, settled] at missing
        cases missing
    · rw [show j.name = i.name from same]
      exact misses.2

theorem Walked.listed (h : Walked w inSection n) (named : n.named? = some (role, name)) :
    name ∈ w.found.under role := by
  cases h with
  | text | parent => cases named
  | interpolation _ recorded | sect recorded | inclusion recorded | block recorded =>
    cases named
    exact recorded

theorem Walked.hasRoot (h : Walked w inSection n) (reads : n.Reads name) :
    w.found.HasRoot inSection name := by
  cases h with
  | text | parent | inclusion | block => rcases reads with named | named <;> cases named
  | interpolation _ _ root | sect _ root =>
    rcases reads with named | named <;> cases named
    exact root

/-- What a walk collects that has come to its end. -/
theorem lists_of_walks (coherent : (lookup loader).Coherent root)
    (walks : Walks loader ⟨.empty, [], []⟩ (.ofNodes false root) w) :
    w.found.Lists loader root := by
  have spreads := spreads_supplied loader root
  have start : ∀ item ∈ Agenda.ofNodes false root, (lookup loader).SuppliesIn root item.1 item.2 :=
    Agenda.forall_ofNodes.2 fun n mem => .root mem
  have all := exhausts_of_walks spreads walks start
  have recorded := Recorded.of_walks spreads walks start .empty
  refine ⟨fun role _ => ⟨fun mem => ?_, ?_⟩, ⟨fun mem => ?_, ?_⟩, ⟨recorded.rootNames, ?_⟩⟩
  · obtain ⟨n, named, met⟩ := recorded.names role mem
    exact ⟨n, named, Loader.supplies_iff.2 met⟩
  · rintro ⟨n, named, supplied⟩
    obtain ⟨inSection, met⟩ := Loader.supplies_iff.1 supplied
    exact (walked_of_supplied coherent all met).listed named
  · obtain ⟨i, named, misses, met⟩ := recorded.unresolved mem
    exact ⟨i, named, misses, Loader.supplies_iff.2 met⟩
  · rintro ⟨i, rfl, misses, supplied⟩
    obtain ⟨inSection, met⟩ := Loader.supplies_iff.1 supplied
    exact unresolved_of_supplied coherent all met misses
  · rintro ⟨named, n, reads, met⟩
    exact (walked_of_supplied coherent all met).hasRoot reads rfl named

end Collection

namespace Template
variable {t : Template} {loader : Option Loader} {catalog : Catalog}

/-- Where no partial is settled ahead of time, the walk comes to an end whatever includes what, and
collects exactly the names of the nodes that the template and its partials supply. The unresolved
partials are those of the partials collected that the catalog does not have. -/
theorem lists_supplied (tree : Node.Everywhere Node.Unsettled t.nodes)
    (loaded : ∀ name u, catalog.load name = some u → Node.Everywhere Node.Unsettled u.nodes) :
    let d := (t.dependencies (some catalog) []).dependencies
    (∀ e, t.Collects (some catalog.load) [] e ↔ e = d) ∧
      d.Lists (some catalog.load) t.nodes ∧
      ∀ name, name ∈ d.unresolved ↔ name ∈ d.partials ∧ catalog.load name = none := by
  intro d
  have collects (e : Dependencies) : t.Collects ((some catalog).map Catalog.load) [] e ↔ e = d :=
    collects_iff.trans eq_comm
  obtain ⟨w, walks, found⟩ := (collects d).2 rfl
  have coherent : catalog.load.Coherent t.nodes := Loader.coherent_of_unsettled tree loaded
  have lists : d.Lists (some catalog.load) t.nodes := found ▸ Collection.lists_of_walks coherent walks
  refine ⟨collects, lists, fun name => ?_⟩
  have listed : name ∈ d.partials ↔ _ := lists.names .inclusion
  rw [lists.unresolved, listed]
  constructor
  · rintro ⟨i, rfl, misses, supplied⟩
    exact ⟨⟨.inclusion i, rfl, supplied⟩, Option.some.inj misses.2⟩
  · rintro ⟨⟨n, named, supplied⟩, absent⟩
    cases n with
    | inclusion i =>
      obtain rfl : i.name = name := by simpa [Node.named?] using named
      have missing := Loader.target_of_supplied tree loaded supplied
      exact ⟨i, rfl, ⟨missing, congrArg some absent⟩, supplied⟩
    | _ => simp [Node.named?] at named

/-- Two partials that include one another, one of which also includes a partial that is not there. -/
def circle : Catalog :=
  [("footer", .ofNodes [.interpolation "year" true]),
    ("here", .ofNodes [.interpolation "x" true, .inclusion (.named "there")]),
    ("there", .ofNodes [.block ⟨"y", []⟩, .inclusion (.named "here"), .inclusion (.named "gone")])]

/-- The footer is met inside of a section first, and then outside. -/
theorem lists_footer :
    let page : Template := .ofNodes
      [.sect (.ofChildren "user" false [.inclusion (.named "footer"), .interpolation "name" true]),
        .inclusion (.named "footer"),
        .parent (.named "here") [⟨"y", [.interpolation "." false]⟩]]
    let d : Dependencies := ⟨[".", "name", "x", "year"], ["user"], ["footer", "gone", "here", "there"],
      ["y"], ["gone"], ["user", "x", "year"]⟩
    page.Collects (some circle.load) [] d ∧ d.Lists (some circle.load) page.nodes := by
  intro page d
  have tree : Node.Everywhere Node.Unsettled page.nodes := by
    simp [page, ofNodes, Section.ofChildren, Node.everywhere_cons, Node.everywhere_nil, Node.parts,
      Node.Unsettled, Inclusion.named]
  have loaded (name : String) (u : Template) (found : circle.load name = some u) :
      Node.Everywhere Node.Unsettled u.nodes := by
    have mem := Entries.mem_of_get? found
    simp only [circle, List.mem_cons, Prod.mk.injEq, List.not_mem_nil, or_false] at mem
    rcases mem with ⟨-, rfl⟩ | ⟨-, rfl⟩ | ⟨-, rfl⟩
    all_goals simp [ofNodes, Node.everywhere_cons, Node.everywhere_nil, Node.parts, Node.Unsettled,
      Inclusion.named]
  obtain ⟨collects, lists, -⟩ := lists_supplied tree loaded
  have same : (page.dependencies (some circle) []).dependencies = d := by cbv
  rw [same] at collects lists
  exact ⟨(collects d).2 rfl, lists⟩

/-- Where a name stands for one tree, the same outside of all sections and the same inside of sections,
nothing is missed behind the templates settled at partials, whatever the loader. With a catalog, or
with no loader, the walk comes to an end. -/
theorem lists_of_coherent (coherent : (Collection.lookup loader).Coherent t.nodes) :
    (∀ d, t.Collects loader [] d → d.Lists loader t.nodes) ∧
      ∀ catalog : Option Catalog, loader = catalog.map Catalog.load → ∃ d, t.Collects loader [] d := by
  refine ⟨fun d collected => ?_, fun catalog same => ?_⟩
  · obtain ⟨w, walks, rfl⟩ := collected
    exact Collection.lists_of_walks coherent walks
  · subst same
    exact ⟨_, collects_iff.2 rfl⟩

/-- A rule, and the heads of a letter, with a crest and without. -/
def rule : Inclusion := ⟨"rule", "", some (.ofNodes [.block ⟨"line", [.text "-"]⟩])⟩

def plain : Inclusion := ⟨"head", "", some (.ofNodes [.interpolation "name" true])⟩

def crested : Inclusion :=
  ⟨"head", "", some (.ofNodes [.interpolation "crest" true, .inclusion rule])⟩

/-- A letter that shows a crest where it is formal. -/
def letterhead : Template :=
  .ofNodes [.inclusion plain, .sect (.ofChildren "formal" false [.inclusion crested]),
    .inclusion plain]

/-- Inside of the section only the head with the crest is met, and outside only the other. -/
theorem supplied_letterhead {inSection : Bool} {i : Inclusion}
    (h : (Collection.lookup none).SuppliesIn letterhead.nodes inSection (.inclusion i)) :
    (inSection = false ∧ i = plain) ∨ (inSection = true ∧ i = crested) ∨
      (inSection = true ∧ i = rule) := by
  let met : List (Bool × Node) :=
    [(false, .inclusion plain), (false, .sect (.ofChildren "formal" false [.inclusion crested])),
      (false, .interpolation "name" true), (true, .inclusion crested),
      (true, .interpolation "crest" true), (true, .inclusion rule),
      (true, .block ⟨"line", [.text "-"]⟩), (true, .text "-")]
  have inclusions {inSection : Bool} {i : Inclusion} (h : (inSection, Node.inclusion i) ∈ met) :
      (inSection = false ∧ i = plain) ∨ (inSection = true ∧ i = crested) ∨
        (inSection = true ∧ i = rule) := by
    simpa [met] using h
  have spreads : Collection.Spreads none fun inSection n => (inSection, n) ∈ met := by
    have parts : ∀ item ∈ met, ∀ m ∈ item.2.parts, (item.1 || item.2.isSection, m) ∈ met := by
      decide +kernel
    have behind : (∀ n ∈ Collection.behind none plain, (false, n) ∈ met) ∧
        (∀ n ∈ Collection.behind none crested, (true, n) ∈ met) ∧
        ∀ n ∈ Collection.behind none rule, (true, n) ∈ met := by decide +kernel
    refine ⟨fun {_ _ _} h mem => parts _ h _ mem, fun {_ _ _} h => ?_, fun {_ _ _} h mem => ?_⟩
    · simp [met] at h
    · rcases inclusions h with ⟨rfl, rfl⟩ | ⟨rfl, rfl⟩ | ⟨rfl, rfl⟩
      · exact behind.1 _ mem
      · exact behind.2.1 _ mem
      · exact behind.2.2 _ mem
  have top : ∀ n ∈ letterhead.nodes, (false, n) ∈ met := by decide +kernel
  exact inclusions (spreads.of_supplied top h)

/-- One name stands for two heads, for one of them outside of sections and for the other inside. -/
theorem lists_letterhead :
    let d : Dependencies :=
      ⟨["crest", "name"], ["formal"], ["head", "rule"], ["line"], [], ["formal", "name"]⟩
    (Collection.lookup none).Coherent letterhead.nodes ∧ letterhead.Collects none [] d ∧
      d.Lists none letterhead.nodes := by
  intro d
  have coherent : (Collection.lookup none).Coherent letterhead.nodes := by
    intro inSection i j hi hj same
    rcases supplied_letterhead hi with ⟨rfl, rfl⟩ | ⟨rfl, rfl⟩ | ⟨rfl, rfl⟩ <;>
      rcases supplied_letterhead hj with ⟨side, rfl⟩ | ⟨side, rfl⟩ | ⟨side, rfl⟩
    all_goals first | rfl | exact absurd same (by decide) | cases side
  have collected : letterhead.Collects none [] d := by
    have same : (letterhead.dependencies none []).dependencies = d := by cbv
    exact (@collects_iff _ none _ _).2 same
  exact ⟨coherent, collected, (lists_of_coherent coherent).1 d collected⟩

/-- A memo with two notes of one name that are settled with different templates. -/
def memo : Template :=
  let note (name : String) : Node := .inclusion ⟨"note", "", some (.ofNodes [.interpolation name true])⟩
  .ofNodes [note "x", note "y"]

/-- The second note is not walked, and its variable is not predicted to be missing. A render comes to
it and fails. -/
theorem missed_memo :
    let d := (memo.dependencies none []).dependencies
    let data := Value.map [("x", .str "Ada")]
    Loader.empty.Supplies memo.nodes (.interpolation "y" true) ∧
      d = ⟨["x"], [], ["note"], [], [], ["x"]⟩ ∧ d.missingFrom data = [] ∧
      (memo.render ⟨⟨128, true, .reject⟩, .empty, scriptedHost [] false⟩ data .start).result =
        .error (.missingVariable "y") := by
  intro d data
  have collected : d = ⟨["x"], [], ["note"], [], [], ["x"]⟩ := by
    change (memo.dependencies none []).dependencies = _
    cbv
  refine ⟨?_, collected, ?_, by decide +kernel⟩
  · exact .body (.root (List.mem_cons_of_mem _ (List.mem_singleton_self _))) rfl
      (List.mem_singleton_self _)
  · rw [collected]
    decide +kernel

end Template

end Mustache
