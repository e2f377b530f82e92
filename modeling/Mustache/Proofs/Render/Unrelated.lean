import Mustache.Proofs.Dependencies.Covered
import Mustache.Proofs.Render.Shifted
import Mustache.Proofs.Render.Twins

/-! A partial with overrides for blocks that do not occur. Where the walk of the plain partial meets no
block of these names, the scope that is pushed is never taken from: what is resolved is resolved in
the scopes pushed later, or past it in those there were before. -/
namespace Mustache
open Collection (Covers Ended)

namespace Overrides

/-- The scopes of `inner` are asked first. -/
theorem find?_append (name : String) (inner outer : List OverrideScope) :
    find? name (inner ++ outer) =
      (((find? name inner).map fun (block, rest) => (block, rest ++ outer)).or
        (find? name outer)) := by
  induction inner with
  | nil => rfl
  | cons scope rest ih =>
    simp only [List.cons_append, find?]
    cases scope.get? name with
    | none => exact ih
    | some block => rfl

/-- A scope that does not declare a name is passed over. -/
theorem find?_cons_of_none {name : String} {scope : OverrideScope} (h : scope.get? name = none)
    (outer : List OverrideScope) : find? name (scope :: outer) = find? name outer := by
  rw [find?, h]

end Overrides

namespace Render
variable {σ : Type}

/-- On the one side a scope is in force between two others. On the other it is not there. Nothing that
is rendered takes from it; outside of it both sides are the same. -/
inductive Apart (w : Collection.Walk) (own : List String) (scope : OverrideScope) : Places
  | within {env : Env} {inner outer : List OverrideScope} {nodes : List Node}
    (covered : ∀ n ∈ nodes, Covers w true n)
    (overrides : (Overrides.mk inner).All fun b => Covers w true (.block b))
    (path : own ⊆ env.path.names) (free : env.context.All Value.LambdaFree) :
    Apart w own scope { env with overrides := ⟨inner ++ scope :: outer⟩ } nodes
      { env with overrides := ⟨inner ++ outer⟩ } nodes
  | beyond {env : Env} {nodes : List Node} : Apart w own scope env nodes env nodes

section Meeting
variable {setup : Setup σ} {catalog : Catalog} {w : Collection.Walk} {own : List String}
  {scope : OverrideScope} {env : Env} {inner outer : List OverrideScope}
  (unrelated : ∀ b ∈ scope, b.name ∉ w.found.blocks)
  (overrides : (Overrides.mk inner).All fun b => Covers w true (.block b))
  (free : env.context.All Value.LambdaFree)
include overrides free

theorem apart_block (path : own ⊆ env.path.names) {b : Block} (here : Covers w true (.block b))
    (undeclared : scope.get? b.name = none) :
    let a : Env := { env with overrides := ⟨inner ++ scope :: outer⟩ }
    let c : Env := { env with overrides := ⟨inner ++ outer⟩ }
    Apart w own scope (a.atContent b) (a.overrides.content b).1.children (c.atContent b)
      (c.overrides.content b).1.children := by
  simp only [Env.atContent, Overrides.content, Overrides.resolve?, Overrides.find?_append,
    Overrides.find?_cons_of_none undeclared]
  cases found : Overrides.find? b.name inner with
  | some result =>
    -- declared in a newer scope: the content is rendered with the scope still there
    obtain ⟨override, rest⟩ := result
    have resolved : (Overrides.mk inner).resolve? b.name = some (override, ⟨rest⟩) := by
      rw [Overrides.resolve?, found, Option.map_some]
    obtain ⟨declared, enclosing⟩ := overrides.of_resolve? resolved
    exact .within declared.block.2 enclosing path free
  | none =>
    cases Overrides.find? b.name outer with
    | some result => exact .beyond
    | none => exact .within here.block.2 overrides path free

theorem apart_inclusion {i : Inclusion}
    (inside : ∀ t path, setup.loader.target? i = some t → env.path.enter i.name = .ok path →
      (∀ n ∈ t.nodes, Covers w true n) ∧ own ⊆ path.names) :
    i.Meets setup.loader (fun _ => False) (Same σ) (Apart w own scope)
      { env with overrides := ⟨inner ++ scope :: outer⟩ } { env with overrides := ⟨inner ++ outer⟩ }
      i := by
  refine .of_enters (.inl rfl) (fun _ => keeps_of_lockstep setup.host.lockstep_eq _) fun target => ?_
  intro path path' entered entered' _
  obtain rfl := Except.ok.inj (entered.symm.trans entered')
  obtain ⟨nodes, longer⟩ := inside _ path target entered
  exact @Apart.within _ _ _ (env.inside i path) _ _ _ nodes overrides longer free

variable (ended : Ended catalog own w)
  (same : ∀ name ∈ w.found.partials, setup.loader name = catalog.load name)
  (path : own ⊆ env.path.names)
include unrelated ended same path

/-- One case for each kind of node. -/
theorem meets_apart {n : Node} (here : Covers w true n) :
    n.Meets setup.loader False (fun _ => False) (fun x y => x = y ∧ x.LambdaFree) (Same σ)
      (Apart w own scope)
      { env with overrides := ⟨inner ++ scope :: outer⟩ } { env with overrides := ⟨inner ++ outer⟩ }
      n := by
  have lock := setup.host.lockstep_eq
  have found (name : String) := found_of_all Value.closed_lambdaFree free name
  have inside {i : Inclusion} (here : Covers w true (.inclusion i)) (t : Template)
      (path' : InclusionPath) (target : setup.loader.target? i = some t)
      (entered : env.path.enter i.name = .ok path') :
      (∀ n ∈ t.nodes, Covers w true n) ∧ own ⊆ path'.names := by
    obtain ⟨new, names⟩ := InclusionPath.enter_eq_ok entered
    refine ⟨here.template ended same (fun mem => new (path mem)) target, ?_⟩
    exact names ▸ fun name mem => List.mem_append_left _ (path mem)
  cases n with
  | text t => exact .text (keeps_of_lockstep lock _)
  | interpolation name escaped =>
    exact .interpolation (found name) (fun _ _ => keeps_of_lockstep lock _) False.elim
  | sect s =>
    refine .sect ⟨rfl, rfl, found s.name, .within here.sect.2 overrides path free, ?_, False.elim,
      False.elim⟩
    rintro x _ ⟨rfl, hx⟩
    exact @Apart.within _ _ _ (env.pushFrame x) _ _ _ here.sect.2 overrides path (free.push hx)
  | inclusion i => exact .inclusion (apart_inclusion overrides free (inside here))
  | parent i more =>
    obtain ⟨base, blocks⟩ := here.parent
    have pushed : (Overrides.mk (more :: inner)).All fun b => Covers w true (.block b) :=
      overrides.push blocks
    exact .parent (apart_inclusion pushed free (inside base))
  | block b =>
    refine .block (apart_block overrides free path here ?_)
    exact List.find?_eq_none.2 fun c mem => by
      simpa using fun same : c.name = b.name => unrelated c mem (same ▸ here.block.1)

end Meeting

/-- What is rendered on both sides is the same step by step. -/
theorem follows_apart {setup : Setup σ} {catalog : Catalog} {w : Collection.Walk}
    {own : List String} {scope : OverrideScope} (unrelated : ∀ b ∈ scope, b.name ∉ w.found.blocks)
    (ended : Ended catalog own w)
    (same : ∀ name ∈ w.found.partials, setup.loader name = catalog.load name) (room : Nat) :
    Deeper.Follows (fun _ => False) (Same σ) (Apart w own scope) (descend setup room)
      (descend setup room) := by
  refine follows_of_same_or_meets setup.host.lockstep_eq (setup.config.leads_refl _) rfl
    Value.closed_lambdaFree.kin (fun place => ?_) (.inl ⟨rfl, rfl⟩)
  cases place with
  | beyond => exact .inl ⟨rfl, rfl⟩
  | within covered overrides path free =>
    right
    exact List.forall₂_same.2 fun n mem =>
      meets_apart unrelated overrides free ended same path (covered n mem)

end Render

namespace Collection

/-- The template settled at a partial is walked behind it. By then the partial counts as followed. -/
theorem run_settled (catalog : Option Catalog) {i : Inclusion} {t : Template}
    (settled : i.target = some t) :
    run catalog ⟨.empty, [], []⟩ [(false, .inclusion i)] =
      run catalog ⟨Dependencies.empty.addPartial i.name, [(i.name, false)], []⟩
        (Agenda.ofNodes false t.nodes ++ []) := by
  rw [run, dif_neg (by simp)]
  split
  · rename_i u target
    obtain rfl := Option.some.inj (settled.symm.trans target)
    rfl
  all_goals
    rename_i target _
    cases settled.symm.trans target

/-- The walk of a single partial comes to its end, and covers the template that the partial leads to.
The template may be settled at the partial, but nowhere else. -/
theorem ended_inclusion {catalog : Catalog} {loader : Loader} {i : Inclusion}
    (unsettled : ∀ name t, catalog.load name = some t → Node.Everywhere Node.Unsettled t.nodes)
    (flat : ∀ t, i.target = some t → Node.Everywhere Node.Unsettled t.nodes)
    (same : ∀ name ∈ ((Template.ofNodes [.inclusion i]).dependencies (some catalog)
      []).dependencies.partials, loader name = catalog.load name) :
    ∃ w, ((Template.ofNodes [.inclusion i]).dependencies (some catalog) []).dependencies = w.found ∧
      Ended catalog [i.name] w ∧
      ∀ t, loader.target? i = some t → ∀ n ∈ t.nodes, Covers w true n := by
  refine ⟨run (some catalog) ⟨.empty, [], []⟩ [(false, .inclusion i)], rfl, ?_⟩
  cases settled : i.target with
  | none =>
    have here : Node.Everywhere Node.Unsettled [.inclusion i] :=
      Node.everywhere_cons.2 ⟨settled, Node.everywhere_nil, Node.everywhere_nil⟩
    have done := completes_run (w := ⟨.empty, [], []⟩) unsettled
      (List.forall_mem_singleton.2 here : Agenda.Unsettled [(false, .inclusion i)])
    have ended : Ended catalog [] _ := done.ended unsettled (List.forall_mem_nil _)
    have covered : Covers _ true (.inclusion i) :=
      ⟨here, false, fun _ => rfl, done.agenda _ (List.mem_singleton_self _)⟩
    refine ⟨ended.mono (List.nil_subset _), fun t target => ?_⟩
    exact covered.template ended same List.not_mem_nil target
  | some t =>
    have done := completes_run
      (w := ⟨Dependencies.empty.addPartial i.name, [(i.name, false)], []⟩) unsettled
      (.ofNodes (flat t settled) (List.forall_mem_nil _) :
        Agenda.Unsettled (Agenda.ofNodes false t.nodes ++ []))
    rw [run_settled _ settled]
    refine ⟨done.ended unsettled (by simp), fun u target => ?_⟩
    rw [Loader.target?, settled] at target
    obtain rfl := Option.some.inj target
    have walked := Agenda.forall_ofNodes.1 (List.forall_mem_append.1 done.agenda).1
    exact covers_of_walked (flat t settled) (fun _ => rfl) walked

end Collection

namespace InPlace
variable {σ : Type}

/-- Overrides with unrelated names do not interfere. If none of them is for a block that the walk of the
plain partial meets, the partial with overrides comes to the same result as the plain one and leaves
the renderer in the same state, whatever surroundings it is rendered in. The templates looked up on
the way are those of the catalog that the walk is given. -/
theorem accept_unrelated (setup : Setup σ) (m : InPlace σ) (free : m.context.All Value.LambdaFree)
    (i : Inclusion) (scope : OverrideScope) {catalog : Catalog}
    (unsettled : ∀ name t, catalog.load name = some t → Node.Everywhere Node.Unsettled t.nodes)
    (flat : ∀ t, i.target = some t → Node.Everywhere Node.Unsettled t.nodes) :
    let collected := ((Template.ofNodes [.inclusion i]).dependencies (some catalog) []).dependencies
    (∀ name ∈ collected.partials, setup.loader name = catalog.load name) →
      (∀ b ∈ scope, b.name ∉ collected.blocks) →
        m.accept setup [.parent i scope] = m.accept setup [.inclusion i] := by
  intro collected same unrelated
  obtain ⟨w, found, ended, covered⟩ := Collection.ended_inclusion unsettled flat same
  rw [show collected = w.found from found] at same unrelated
  have inside (t : Template) (path : InclusionPath) (target : setup.loader.target? i = some t)
      (entered : m.env.path.enter i.name = .ok path) :
      (∀ n ∈ t.nodes, Covers w true n) ∧ [i.name] ⊆ path.names := by
    refine ⟨covered t target, ?_⟩
    rw [(InclusionPath.enter_eq_ok entered).2]
    exact List.subset_append_right _ _
  have tandem : Render.Tandem False (fun _ => False) setup setup (Render.Same σ) :=
    Render.tandem_of_lockstep False setup.host.lockstep_eq (setup.config.leads_refl _) rfl
  have handled (room : Nat) :
      Render.visitAll setup room m.env [.parent i scope] =
        Render.visitAll setup room m.env [.inclusion i] := by
    have follows := Render.follows_apart unrelated ended same room
    have meets := @Render.apart_inclusion _ setup w [i.name] scope m.env [] m.overrides.scopes .empty
      free i inside
    have steps := Render.Leads.eq (Render.meets_visitInclusion tandem follows meets)
    rw [Render.visitAll_singleton, Render.visitAll_singleton]
    exact congrArg _ (funext fun _ => steps)
  rw [accept_eq, accept_eq, handled]

/-- A card with a place for its head, above a rule. -/
def cards : Catalog :=
  [("card", .ofNodes [.block ⟨"head", [.text "Card"]⟩, .inclusion (.named "rule")]),
    ("rule", .ofNodes [.text "-"])]

/-- The head comes from an older scope, and the block in it is not for the card to fill. -/
theorem accept_card :
    let setup : Setup ScriptedState := ⟨.standard, cards.load, scriptedHost [] false⟩
    let head : Block := ⟨"head", [.block ⟨"foot", [.text "Title"]⟩]⟩
    let m : InPlace ScriptedState :=
      { start .null none .start with overrides := Overrides.empty.push [head] }
    let filled := m.accept setup [.parent (.named "card") [⟨"foot", [.text "Foot"]⟩]]
    filled.1 = .ok () ∧ filled.2.output = "Title-" ∧
      filled = m.accept setup [.inclusion (.named "card")] := by
  intro setup head m filled
  refine ⟨by decide +kernel, by decide +kernel, ?_⟩
  have free : m.context.All Value.LambdaFree := .ofRoot (by simp [Value.LambdaFree])
  have unsettled (name : String) (t : Template) (found : cards.load name = some t) :
      Node.Everywhere Node.Unsettled t.nodes := by
    have mem := Entries.mem_of_get? found
    simp only [cards, List.mem_cons, Prod.mk.injEq, List.not_mem_nil, or_false] at mem
    rcases mem with ⟨-, rfl⟩ | ⟨-, rfl⟩
    all_goals simp [Template.ofNodes, Node.everywhere_cons, Node.everywhere_nil, Node.parts,
      Node.Unsettled, Inclusion.named]
  have met : ((Template.ofNodes [.inclusion (.named "card")]).dependencies (some cards)
      []).dependencies.blocks = ["head"] := by cbv
  have flat (t : Template) (settled : (Inclusion.named "card").target = some t) :
      Node.Everywhere Node.Unsettled t.nodes := by simp [Inclusion.named] at settled
  refine accept_unrelated setup m free (.named "card") _ unsettled flat (fun _ _ => rfl) ?_
  rw [met]
  simp

end InPlace
end Mustache
