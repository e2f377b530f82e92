import Mustache.Catalog
import Mustache.Dependencies

/-! The walk that finds every name a template depends on, without data: all branches are walked, and
partials are followed at most once outside and once inside of sections. -/
namespace Mustache

namespace Collection

/-- A partial name and whether it was met inside a section. -/
abbrev Visit := String × Bool

/-- What is still to be walked: nodes, and whether they lie inside a section. -/
abbrev Agenda := List (Bool × Node)

def Agenda.size : Agenda → Nat
  | [] => 0
  | item :: rest => item.2.size + Agenda.size rest

/-- The visits to partials of a catalog that have not been made. -/
def unvisited (catalog : Option Catalog) (visited : List Visit) : Nat :=
  match catalog with
  | none => 0
  | some entries =>
    ((entries.keys.map (·, false)) ++ (entries.keys.map (·, true))).countP fun visit =>
      !visited.contains visit

/-- What a walk has found, which partials it has followed, and the names it looked up, newest
first. -/
structure Walk where
  found : Dependencies
  visited : List Visit
  loads : List String

/-- Nodes that are walked together. -/
def Agenda.ofNodes (inSection : Bool) (nodes : List Node) : Agenda := nodes.map (inSection, ·)

/-- Overrides are walked as blocks. -/
def Agenda.ofBlocks (inSection : Bool) (blocks : List Block) : Agenda :=
  blocks.map fun b => (inSection, .block b)

theorem Agenda.size_ofNodes (inSection : Bool) (nodes : List Node) :
    Agenda.size (ofNodes inSection nodes) = Node.sizes nodes := by
  induction nodes with
  | nil => rfl
  | cons n rest ih =>
    simp only [ofNodes] at ih
    simp only [ofNodes, List.map_cons, Agenda.size, Node.sizes, ih]

theorem Agenda.size_append (a b : Agenda) : Agenda.size (a ++ b) = a.size + b.size := by
  induction a with
  | nil => simp only [List.nil_append, Agenda.size, Nat.zero_add]
  | cons item rest ih => simp only [List.cons_append, Agenda.size, ih, Nat.add_assoc]

theorem Agenda.size_cons (item : Bool × Node) (rest : Agenda) :
    Agenda.size (item :: rest) = item.2.size + rest.size := rfl

theorem Agenda.size_ofBlocks (inSection : Bool) (blocks : List Block) :
    Agenda.size (ofBlocks inSection blocks) = Block.sizes blocks := by
  induction blocks with
  | nil => rfl
  | cons b rest ih =>
    simp only [ofBlocks] at ih
    simp only [ofBlocks, List.map_cons, Agenda.size, Block.sizes, Node.size, ih]

private theorem countP_lt {α : Type} {p q : α → Bool} {l : List α} {a : α} (ha : a ∈ l)
    (hp : p a = true) (hq : q a = false) (h : ∀ x, q x = true → p x = true) :
    l.countP q < l.countP p := by
  induction l with
  | nil => simp at ha
  | cons b rest ih =>
    have hle : rest.countP q ≤ rest.countP p := List.countP_mono_left fun x _ => h x
    simp only [List.countP_cons]
    rcases List.mem_cons.1 ha with rfl | ha
    · simp only [hp, hq]
      simp only [Bool.false_eq_true, if_false, if_true]
      omega
    · have := ih ha
      by_cases hb : q b = true
      · simp only [hb, h b hb, if_true]
        omega
      · simp only [hb]
        simp only [Bool.false_eq_true, if_false]
        omega

theorem unvisited_le (catalog : Option Catalog) (visit : Visit) (visited : List Visit) :
    unvisited catalog (visit :: visited) ≤ unvisited catalog visited := by
  unfold unvisited
  split
  · exact Nat.le_refl _
  · refine List.countP_mono_left fun x _ hx => ?_
    simp only [List.contains_cons, Bool.not_or, Bool.and_eq_true] at hx
    exact hx.2

/-- Following a partial of the catalog for the first time leaves fewer visits to be made. -/
theorem unvisited_lt {entries : Catalog} {name : String} {inSection : Bool} {template : Template}
    {visited : List Visit} (h : entries.get? name = some template)
    (hv : visited.contains (name, inSection) = false) :
    unvisited (some entries) ((name, inSection) :: visited) < unvisited (some entries) visited := by
  have hk := Entries.mem_keys_of_get? h
  unfold unvisited
  refine countP_lt (a := (name, inSection)) ?_ (by simp only [hv, Bool.not_false])
    (by simp) fun x hx => ?_
  · cases inSection <;> simp [hk]
  · simp only [List.contains_cons, Bool.not_or, Bool.and_eq_true] at hx
    exact hx.2

private theorem lex_of_le {a b c d : Nat} (h : a ≤ b) (h' : c < d) :
    Prod.Lex (· < ·) (· < ·) (a, c) (b, d) := by
  rcases Nat.lt_or_eq_of_le h with h | rfl
  · exact .left _ _ h
  · exact .right _ h'

/-- Walks the agenda from its head. A followed partial is walked before what comes after it. Each
step shortens the agenda, except where a partial of the catalog is followed for the first time. -/
def run (catalog : Option Catalog) (w : Walk) : Agenda → Walk
  | [] => w
  | (_, .text _) :: rest => run catalog w rest
  | (inSection, .interpolation name _) :: rest =>
    run catalog { w with found := w.found.addVariable inSection name } rest
  | (inSection, .sect s) :: rest =>
    run catalog { w with found := w.found.addSection inSection s.name }
      (.ofNodes true s.children ++ rest)
  | (inSection, .block b) :: rest =>
    run catalog { w with found := w.found.addBlock b.name } (.ofNodes inSection b.children ++ rest)
  | (inSection, .parent i overrides) :: rest =>
    run catalog w (.ofBlocks inSection overrides ++ (inSection, .inclusion i) :: rest)
  | (inSection, .inclusion i) :: rest =>
    if _hv : w.visited.contains (i.name, inSection) = true then
      run catalog { w with found := w.found.addPartial i.name } rest
    else
      let followed : Walk :=
        { w with found := w.found.addPartial i.name, visited := (i.name, inSection) :: w.visited }
      match _ht : i.target, _hc : catalog.map (Entries.get? i.name) with
      | some template, _ => run catalog followed (.ofNodes inSection template.nodes ++ rest)
      | none, none => run catalog followed rest
      | none, some none =>
        run catalog
          { followed with
            found := followed.found.addUnresolved i.name
            loads := i.name :: w.loads }
          rest
      | none, some (some template) =>
        run catalog { followed with loads := i.name :: w.loads }
          (.ofNodes inSection template.nodes ++ rest)
termination_by agenda => (unvisited catalog w.visited, Agenda.size agenda)
decreasing_by
  · exact .right _ (by simp only [Agenda.size_cons, Node.size]; omega)
  · exact .right _ (by simp only [Agenda.size_cons, Node.size]; omega)
  · refine .right _ ?_
    simp only [Agenda.size_append, Agenda.size_ofNodes, Agenda.size_cons, Node.size,
      Section.sizes_children]
    omega
  · refine .right _ ?_
    simp only [Agenda.size_append, Agenda.size_ofNodes, Agenda.size_cons, Node.size,
      Block.sizes_children]
    omega
  · refine .right _ ?_
    simp only [Agenda.size_append, Agenda.size_ofBlocks, Agenda.size_cons, Node.size]
    omega
  · refine .right _ ?_
    simp only [Agenda.size_cons, Node.size]
    omega
  · refine lex_of_le (unvisited_le _ _ _) ?_
    simp only [Agenda.size_append, Agenda.size_ofNodes, Agenda.size_cons, Node.size,
      Template.sizes_nodes, ← Inclusion.size_target, _ht, Template.targetSize]
    omega
  · refine lex_of_le (unvisited_le _ _ _) ?_
    simp only [Agenda.size_cons, Node.size]
    omega
  · refine lex_of_le (unvisited_le _ _ _) ?_
    simp only [Agenda.size_cons, Node.size]
    omega
  · obtain ⟨entries, rfl, hg⟩ := Option.map_eq_some_iff.1 _hc
    exact .left _ _ (unvisited_lt hg (by simpa using _hv))

end Collection

/-- What collecting the dependencies of some nodes comes to. -/
structure Collected where
  dependencies : Dependencies
  loads : List String

/-- The dependencies of a template, with partials from a catalog if there is one. The partials named
in `followed` are taken to have been followed already. -/
def Template.dependencies (t : Template) (catalog : Option Catalog) (followed : List String) :
    Collected :=
  let visited := followed.flatMap fun name => [(name, true), (name, false)]
  let w := Collection.run catalog ⟨.empty, visited, []⟩ (.ofNodes false t.nodes)
  ⟨w.found, w.loads.reverse⟩

end Mustache
