import Mathlib.Data.List.Forall2
import Mustache.Dependencies.Walk

/-! A walk one step at a time, with any way of finding templates by name. With a catalog every walk
comes to its end; where a loader answers every name there may be none. -/
namespace Mustache
open List (Forall₂)

namespace Collection
variable {loader : Option Loader} {w after other : Walk} {agenda rest : Agenda}

/-- Follows a partial: what it adds to the walk, and the nodes that come next. -/
def follow (loader : Option Loader) (w : Walk) (inSection : Bool) (i : Inclusion) : Walk × Agenda :=
  let named : Walk := { w with found := w.found.addPartial i.name }
  if w.visited.contains (i.name, inSection) then (named, [])
  else
    let followed : Walk := { named with visited := (i.name, inSection) :: w.visited }
    match i.target, loader.map (· i.name) with
    | some template, _ => (followed, .ofNodes inSection template.nodes)
    | none, none => (followed, [])
    | none, some none =>
      ({ followed with
          found := followed.found.addUnresolved i.name
          loads := i.name :: w.loads }, [])
    | none, some (some template) =>
      ({ followed with loads := i.name :: w.loads }, .ofNodes inSection template.nodes)

/-- Takes one item from the agenda: what it adds to the walk, and the nodes that come next. -/
def advance (loader : Option Loader) (w : Walk) : Bool × Node → Walk × Agenda
  | (_, .text _) => (w, [])
  | (inSection, .interpolation name _) =>
    ({ w with found := w.found.addVariable inSection name }, [])
  | (inSection, .sect s) =>
    ({ w with found := w.found.addSection inSection s.name }, .ofNodes true s.children)
  | (inSection, .block b) =>
    ({ w with found := w.found.addBlock b.name }, .ofNodes inSection b.children)
  | (inSection, .parent i overrides) =>
    (w, Agenda.ofBlocks inSection overrides ++ [(inSection, .inclusion i)])
  | (inSection, .inclusion i) => follow loader w inSection i

/-- A walk of an agenda that comes to its end. -/
inductive Walks (loader : Option Loader) : Walk → Agenda → Walk → Prop
  | done (w : Walk) : Walks loader w [] w
  | step {w after : Walk} {item : Bool × Node} {rest : Agenda}
    (h : Walks loader (advance loader w item).1 ((advance loader w item).2 ++ rest) after) :
    Walks loader w (item :: rest) after

theorem Walks.unique (h : Walks loader w agenda after) (k : Walks loader w agenda other) :
    after = other := by
  induction h with
  | done =>
    cases k
    rfl
  | step _ ih =>
    cases k with
    | step k => exact ih k

/-- Where related items add what is related, and lead to related items, a walk that comes to its end
is matched by one that does. -/
theorem Walks.related {r : Walk → Walk → Prop} {q : Bool × Node → Bool × Node → Prop}
    (steps : ∀ {w w' item item'}, r w w' → q item item' →
      r (advance loader w item).1 (advance loader w' item').1 ∧
        Forall₂ q (advance loader w item).2 (advance loader w' item').2)
    (h : Walks loader w agenda after) {w' : Walk} {agenda' : Agenda} (walk : r w w')
    (items : Forall₂ q agenda agenda') :
    ∃ after', Walks loader w' agenda' after' ∧ r after after' := by
  induction h generalizing w' agenda' with
  | done =>
    cases items
    exact ⟨w', .done w', walk⟩
  | step _ ih =>
    cases items with
    | cons first others =>
      obtain ⟨walk, next⟩ := steps walk first
      obtain ⟨after', walks, found⟩ := ih walk (List.rel_append next others)
      exact ⟨after', .step walks, found⟩

theorem map_load (catalog : Option Catalog) (name : String) :
    (catalog.map Catalog.load).map (· name) = catalog.map (Entries.get? name) := by
  cases catalog <;> rfl

/-- With a catalog there is a walk, and it is the one that runs. -/
theorem walks_iff_run {catalog : Option Catalog} :
    Walks (catalog.map Catalog.load) w agenda after ↔ run catalog w agenda = after := by
  have walks : Walks (catalog.map Catalog.load) w agenda (run catalog w agenda) := by
    fun_induction run catalog w agenda with
    | case1 w => exact .done w
    | case2 | case3 | case4 | case5 => exact .step ‹_›
    | case6 w inSection i overrides rest ih =>
      refine .step ?_
      rw [advance, List.append_assoc]
      exact ih
    | case7 w inSection i rest seen ih =>
      refine .step ?_
      rw [advance, follow, if_pos seen]
      exact ih
    | case8 w inSection i rest new followed template target ih =>
      refine .step ?_
      rw [advance, follow, if_neg new, target]
      exact ih
    | case9 w inSection i rest new followed target found ih
    | case10 w inSection i rest new followed target found ih
    | case11 w inSection i rest new followed template target found ih =>
      refine .step ?_
      rw [advance, follow, if_neg new, target, map_load, found]
      exact ih
  exact ⟨walks.unique, fun same => same ▸ walks⟩

end Collection

/-- The dependencies that are collected from a template with a loader, if the walk comes to its end. The
partials named in `followed` are taken to have been followed already. -/
def Template.Collects (t : Template) (loader : Option Loader) (followed : List String)
    (d : Dependencies) : Prop :=
  let visited := followed.flatMap fun name => [(name, true), (name, false)]
  ∃ w, Collection.Walks loader ⟨.empty, visited, []⟩ (.ofNodes false t.nodes) w ∧ w.found = d

theorem Template.collects_iff {t : Template} {catalog : Option Catalog} {followed : List String}
    {d : Dependencies} :
    t.Collects (catalog.map Catalog.load) followed d ↔
      (t.dependencies catalog followed).dependencies = d := by
  unfold Collects
  simp only [Collection.walks_iff_run, exists_eq_left']
  rfl

end Mustache
