import Mustache.Proofs.Dependencies.Walks
import Mustache.Proofs.Render.Independence
import Mustache.Proofs.Render.Splice
import Mustache.Proofs.Valid

/-! Partials that are settled ahead of time, with the templates that the loader has for them. Whether
a partial is looked up when it is reached or was settled before, it comes to the same: in a render, in
a check, and among the dependencies. -/
namespace Mustache
open List (Forall₂)

mutual

/-- Nodes that are the same, but that partials inside the second may be settled where those inside
the first are looked up. -/
inductive Node.Linked (loader : Loader) : Node → Node → Prop
  | same (n : Node) : Node.Linked loader n n
  | sect {s : Section} {children : List Node}
    (h : Forall₂ (Node.Linked loader) s.children children) :
    Node.Linked loader (.sect s) (.sect { s with children })
  | block {b c : Block} (h : Block.Linked loader b c) : Node.Linked loader (.block b) (.block c)
  | inclusion {i j : Inclusion} (h : Inclusion.Linked loader i j) :
    Node.Linked loader (.inclusion i) (.inclusion j)
  | parent {i j : Inclusion} {scope scope' : List Block} (h : Inclusion.Linked loader i j)
    (blocks : Forall₂ (Block.Linked loader) scope scope') :
    Node.Linked loader (.parent i scope) (.parent j scope')

inductive Block.Linked (loader : Loader) : Block → Block → Prop
  | children {b : Block} {children : List Node}
    (h : Forall₂ (Node.Linked loader) b.children children) :
    Block.Linked loader b { b with children }

/-- The target of a partial was there already or is the template of its name, and partials inside of
it may be settled in turn. -/
inductive Inclusion.Linked (loader : Loader) : Inclusion → Inclusion → Prop
  | same (i : Inclusion) : Inclusion.Linked loader i i
  | settled {i : Inclusion} {t : Template} {nodes : List Node} (target : loader.target? i = some t)
    (h : Forall₂ (Node.Linked loader) t.nodes nodes) :
    Inclusion.Linked loader i { i with target := some { t with nodes } }

end

theorem Node.linked_refl (loader : Loader) (nodes : List Node) :
    Forall₂ (Linked loader) nodes nodes :=
  List.forall₂_same.2 fun n _ => .same n

theorem Block.linked_refl (loader : Loader) (b : Block) : b.Linked loader b := by
  cases b
  exact .children (Node.linked_refl loader _)

theorem Block.Linked.congruent {loader : Loader} {b c : Block} (h : b.Linked loader c) :
    b.Congruent (Forall₂ (Node.Linked loader)) c := by
  cases h with
  | children h => exact ⟨rfl, h⟩

theorem Inclusion.Linked.name {loader : Loader} {i j : Inclusion} (h : i.Linked loader j) :
    j.name = i.name := by
  cases h <;> rfl

/-- Both have a template, with nodes that are linked, or neither has. -/
theorem Inclusion.Linked.target {loader : Loader} {i j : Inclusion} (h : i.Linked loader j) :
    Option.Rel (fun t u => Forall₂ (Node.Linked loader) t.nodes u.nodes) (loader.target? i)
      (loader.target? j) := by
  cases h with
  | same =>
    cases loader.target? i with
    | none => exact .none
    | some t => exact .some (Node.linked_refl loader t.nodes)
  | settled target h =>
    rw [target]
    exact .some h

namespace Render
variable {σ : Type} {setup : Setup σ} {deeper deeper' : Deeper σ} {a b : Env} {lost : Error → Prop}

/-- A partial that is looked up comes to what it comes to when it is settled, once the request is
made. -/
theorem visitInclusion_loaded {i : Inclusion} {t : Template} (missing : i.target = none)
    (found : setup.loader i.name = some t) (s : RenderState σ) :
    visitInclusion setup deeper a i s =
      visitInclusion setup deeper a { i with target := some t }
        { s with requests := .load i.name :: s.requests } := by
  rw [visitInclusion_eq, visitInclusion_eq, bind_apply, bind_apply]
  unfold target
  rw [missing]
  simp only [load, found]
  rfl

/-- A request to look a template up does not count. -/
theorem Leads.after_load {first second : RenderM σ Unit}
    (h : Leads RenderState.SameCalls lost first second) (name : String) :
    Leads RenderState.SameCalls lost
      (fun s => first { s with requests := .load name :: s.requests }) second := by
  intro s s' related
  refine h _ s' ⟨related.writes, ?_, related.host⟩
  rw [RenderState.calls_loaded, related.calls]

theorem leads_linkedInclusion
    (hd : Deeper.Leads RenderState.SameCalls lost (· = ·) (Forall₂ (Node.Linked setup.loader)) deeper
      deeper')
    (env : a.Leads lost (· = ·) (Forall₂ (Node.Linked setup.loader)) b) {i j : Inclusion}
    (h : i.Linked setup.loader j) :
    Leads RenderState.SameCalls lost (visitInclusion setup deeper a i)
      (visitInclusion setup deeper' b j) := by
  have lock := RenderState.SameCalls.lockstep setup.host
  have tandem : Tandem True lost setup setup fun _ => RenderState.SameCalls :=
    tandem_of_lockstep True lock (setup.config.leads_refl _) rfl
  have follows : Deeper.Follows lost (fun _ => RenderState.SameCalls)
      (Related lost (· = ·) (Forall₂ (Node.Linked setup.loader))) deeper deeper' :=
    fun _ _ _ _ related => hd related.1 related.2
  have congruent {i j : Inclusion} (h : i.Congruent setup.loader (Forall₂ (Node.Linked _)) j) :
      Leads RenderState.SameCalls lost (visitInclusion setup deeper a i)
        (visitInclusion setup deeper' b j) :=
    meets_visitInclusion tandem follows (meets_of_inclusion lock env h)
  cases h with
  | same => exact congruent (i.congruent_refl (Node.linked_refl _))
  | @settled _ t nodes target h =>
    have settled (i : Inclusion) : (Inclusion.mk i.name i.indent (some t)).Congruent setup.loader
        (Forall₂ (Node.Linked _)) { i with target := some { t with nodes } } :=
      ⟨rfl, rfl, .some h, nofun⟩
    unfold Loader.target? at target
    split at target
    · rename_i _ there
      have same : i = ⟨i.name, i.indent, some t⟩ := by
        rw [← target, ← there]
        cases i
        rfl
      rw [same]
      exact congruent (settled i)
    · rename_i missing
      rw [funext (visitInclusion_loaded missing target)]
      exact (congruent (settled i)).after_load i.name

/-- By induction on the levels left. -/
theorem leads_linked (setup : Setup σ) (room : Nat) :
    Deeper.Leads RenderState.SameCalls lost (· = ·) (Forall₂ (Node.Linked setup.loader))
      (descend setup room) (descend setup room) := by
  have lock := RenderState.SameCalls.lockstep setup.host
  induction room with
  | zero => exact fun _ _ => .throw _
  | succ room ih =>
    intro a b nodes nodes' env linked
    refine .forM (linked.imp fun n n' h => ?_)
    have congruent {n n' : Node} (h : n.Congruent setup.loader (fun _ => True)
        (Forall₂ (Node.Linked setup.loader)) n') :
        Leads RenderState.SameCalls lost (visit setup (descend setup room) a n)
          (visit setup (descend setup room) b n') :=
      leads_visit lock (setup.config.leads_refl _) rfl Context.matching_eq
        (fun _ _ => Node.linked_refl _ _) ih env h
    cases h with
    | same => exact congruent (n.congruent_refl (Node.linked_refl _))
    | sect h => exact congruent (.sect ⟨trivial, rfl, rfl, rfl, rfl, h⟩)
    | block h => exact congruent (.block h.congruent)
    | inclusion h =>
      rw [visit_eq, visit_eq]
      exact .bind (.checkCancelled lock.cancelled) fun _ => leads_linkedInclusion ih env h
    | parent h blocks =>
      rw [visit_eq, visit_eq]
      refine .bind (.checkCancelled lock.cancelled) fun _ => leads_linkedInclusion ih ?_ h
      exact ⟨env.context, .cons (blocks.imp fun _ _ h => h.congruent) env.overrides, env.path,
        env.indent⟩

end Render

namespace Validation
open Render (outcome)
variable {loader : Loader} {deeper deeper' : Deeper} {path : InclusionPath} {α β : Type}

/-- Checks that end alike, whatever has been looked up before. -/
def Agree (first second : CheckM α) : Prop :=
  ∀ loads loads', outcome (first loads) = outcome (second loads')

namespace Agree

theorem pure (a : α) : Agree (pure a) (Pure.pure a) := fun _ _ => rfl

theorem throw (error : Error) : Agree (throw error : CheckM α) (MonadExcept.throw error) :=
  fun _ _ => rfl

theorem bind {first second : CheckM α} {next next' : α → CheckM β} (h : Agree first second)
    (hn : ∀ a, Agree (next a) (next' a)) : Agree (first >>= next) (second >>= next') := by
  intro loads loads'
  have head := h loads loads'
  rw [Render.bind_apply, Render.bind_apply]
  cases ran : first loads with
  | ok a after =>
    cases ran' : second loads' with
    | ok b after' =>
      rw [ran, ran'] at head
      obtain rfl : a = b := Except.ok.inj head
      exact hn a after after'
    | error error after' =>
      rw [ran, ran'] at head
      cases head
  | error error after =>
    cases ran' : second loads' with
    | ok b after' =>
      rw [ran, ran'] at head
      cases head
    | error error' after' =>
      rw [ran, ran'] at head
      exact congrArg Except.error (Except.error.inj head)

theorem forM {items items' : List α} {visit visit' : α → CheckM Unit}
    (h : Forall₂ (fun x x' => Agree (visit x) (visit' x')) items items') :
    Agree (items.forM visit) (items'.forM visit') := by
  induction h with
  | nil => exact pure ()
  | cons first _ ih => exact bind first fun _ => ih

end Agree

/-- Partials with targets that correspond, if they have any, are checked alike. -/
theorem agree_visitInclusion {i j : Inclusion} {q : Template → Template → Prop}
    (targets : Option.Rel q (loader.target? i) (loader.target? j)) (name : j.name = i.name)
    (entered : ∀ {t u}, q t u →
      Agree (visitTemplate deeper path i t) (visitTemplate deeper' path j u)) :
    Agree (visitInclusion loader deeper path i) (visitInclusion loader deeper' path j) := by
  intro loads loads'
  rw [visitInclusion_eq, visitInclusion_eq, Render.bind_apply, Render.bind_apply]
  obtain ⟨after, eq⟩ := target_eq loader i loads
  obtain ⟨after', eq'⟩ := target_eq loader j loads'
  rw [eq, eq', name]
  generalize loader.target? i = x at targets ⊢
  generalize loader.target? j = y at targets ⊢
  cases targets with
  | none => rfl
  | some related => exact entered related after after'

/-- One level down the checks of linked nodes end alike. -/
def Deeper.Agree (loader : Loader) (deeper deeper' : Deeper) : Prop :=
  ∀ path nodes nodes', Forall₂ (Node.Linked loader) nodes nodes' →
    Validation.Agree (deeper path nodes) (deeper' path nodes')

section Handlers
variable (hd : deeper.Agree loader deeper')
include hd

theorem agree_linkedInclusion {i j : Inclusion} (h : i.Linked loader j) :
    Agree (visitInclusion loader deeper path i) (visitInclusion loader deeper' path j) := by
  refine agree_visitInclusion h.target h.name fun nodes => ?_
  unfold visitTemplate
  rw [h.name]
  cases path.enter i.name with
  | error error => exact .throw _
  | ok path => exact hd _ _ _ nodes

theorem agree_visitOverrides {scope scope' : List Block}
    (h : Forall₂ (Block.Linked loader) scope scope') (seen : List String) :
    Agree (visitOverrides deeper path seen scope) (visitOverrides deeper' path seen scope') := by
  induction h generalizing seen with
  | nil => exact .pure _
  | @cons b c rest rest' first others ih =>
    have name : c.name = b.name := first.congruent.name
    unfold visitOverrides
    rw [name]
    split
    · exact .throw _
    · exact .bind (hd _ _ _ (.cons (.block first) .nil)) fun _ => ih _

/-- One case for each kind of node. -/
theorem agree_visit {n n' : Node} (h : n.Linked loader n') :
    Agree (visit loader deeper path n) (visit loader deeper' path n') := by
  cases h with
  | same =>
    cases n with
    | text | interpolation => exact .pure _
    | sect s => exact hd _ _ _ (Node.linked_refl loader s.children)
    | block b => exact hd _ _ _ (Node.linked_refl loader b.children)
    | inclusion i => exact agree_linkedInclusion hd (.same i)
    | parent i scope =>
      refine .bind (agree_visitOverrides hd ?_ []) fun _ => agree_linkedInclusion hd (.same i)
      exact List.forall₂_same.2 fun b _ => b.linked_refl loader
  | sect h => exact hd _ _ _ h
  | block h => exact hd _ _ _ h.congruent.children
  | inclusion h => exact agree_linkedInclusion hd h
  | parent h blocks =>
    exact .bind (agree_visitOverrides hd blocks []) fun _ => agree_linkedInclusion hd h

end Handlers

/-- By induction on the levels left. -/
theorem agree_descend (loader : Loader) (limit room : Nat) :
    (descend loader limit room).Agree loader (descend loader limit room) := by
  induction room with
  | zero => exact fun _ _ _ _ => .throw _
  | succ room ih => exact fun _ _ _ h => .forM (h.imp fun _ _ h => agree_visit ih h)

end Validation

namespace Collection
variable {loader : Loader} {w w' after : Walk} {agenda agenda' : Agenda} {inSection : Bool}

/-- Walks that have found the same and followed the same, whatever they have looked up. -/
structure Walk.Alike (w w' : Walk) : Prop where
  found : w.found = w'.found
  visited : w.visited = w'.visited

/-- Agendas of linked nodes. -/
abbrev Agenda.Linked (loader : Loader) : Agenda → Agenda → Prop :=
  Forall₂ fun item item' => item.1 = item'.1 ∧ item.2.Linked loader item'.2

theorem Agenda.linked_ofNodes {nodes nodes' : List Node}
    (h : Forall₂ (Node.Linked loader) nodes nodes') (inSection : Bool) :
    Linked loader (ofNodes inSection nodes) (ofNodes inSection nodes') :=
  List.forall₂_map_left_iff.2 (List.forall₂_map_right_iff.2 (h.imp fun _ _ h => ⟨rfl, h⟩))

theorem Agenda.linked_ofBlocks {scope scope' : List Block}
    (h : Forall₂ (Block.Linked loader) scope scope') (inSection : Bool) :
    Linked loader (ofBlocks inSection scope) (ofBlocks inSection scope') :=
  List.forall₂_map_left_iff.2 (List.forall₂_map_right_iff.2 (h.imp fun _ _ h => ⟨rfl, .block h⟩))

theorem Agenda.linked_refl (loader : Loader) (agenda : Agenda) : Linked loader agenda agenda :=
  List.forall₂_same.2 fun item _ => ⟨rfl, .same item.2⟩

/-- What a partial comes to that is followed for the first time, given its template if there is
one. -/
def followNew (w : Walk) (inSection : Bool) (name : String) (loads : List String) :
    Option Template → Walk × Agenda
  | some t =>
    (⟨w.found.addPartial name, (name, inSection) :: w.visited, loads⟩, .ofNodes inSection t.nodes)
  | none =>
    (⟨(w.found.addPartial name).addUnresolved name, (name, inSection) :: w.visited, loads⟩, [])

theorem follow_of_new (loader : Loader) {i : Inclusion}
    (new : ¬ w.visited.contains (i.name, inSection)) :
    ∃ loads, follow (some loader) w inSection i =
      followNew w inSection i.name loads (loader.target? i) := by
  unfold follow Loader.target?
  rw [if_neg new]
  cases i.target with
  | some t => exact ⟨w.loads, rfl⟩
  | none =>
    refine ⟨i.name :: w.loads, ?_⟩
    simp only [Option.map_some]
    cases loader i.name <;> rfl

theorem linked_follow (same : w.Alike w') {i j : Inclusion} (h : i.Linked loader j) :
    (follow (some loader) w inSection i).1.Alike (follow (some loader) w' inSection j).1 ∧
      Agenda.Linked loader (follow (some loader) w inSection i).2
        (follow (some loader) w' inSection j).2 := by
  by_cases seen : w.visited.contains (i.name, inSection)
  · have seen' : w'.visited.contains (j.name, inSection) := by rwa [h.name, ← same.visited]
    unfold follow
    rw [if_pos seen, if_pos seen']
    exact ⟨⟨by rw [h.name, same.found], same.visited⟩, .nil⟩
  · have new' : ¬ w'.visited.contains (j.name, inSection) := by rwa [h.name, ← same.visited]
    obtain ⟨loads, eq⟩ := follow_of_new loader seen
    obtain ⟨loads', eq'⟩ := follow_of_new loader new'
    have target := h.target
    rw [eq, eq', h.name]
    unfold followNew
    rw [same.found, same.visited]
    generalize loader.target? i = x at target ⊢
    generalize loader.target? j = y at target ⊢
    cases target with
    | none => exact ⟨⟨rfl, rfl⟩, .nil⟩
    | some nodes => exact ⟨⟨rfl, rfl⟩, Agenda.linked_ofNodes nodes inSection⟩

/-- One case for each kind of node. -/
theorem linked_advance (same : w.Alike w') {item item' : Bool × Node}
    (linked : item.1 = item'.1 ∧ item.2.Linked loader item'.2) :
    (advance (some loader) w item).1.Alike (advance (some loader) w' item').1 ∧
      Agenda.Linked loader (advance (some loader) w item).2
        (advance (some loader) w' item').2 := by
  obtain ⟨inSection, n⟩ := item
  obtain ⟨_, n'⟩ := item'
  obtain ⟨rfl, h⟩ := linked
  have adds (f : Dependencies → Dependencies) :
      Walk.Alike { w with found := f w.found } { w' with found := f w'.found } :=
    ⟨congrArg f same.found, same.visited⟩
  cases h with
  | same =>
    have next := Agenda.linked_refl loader
    cases n with
    | text | parent => exact ⟨same, next _⟩
    | interpolation name => exact ⟨adds (·.addVariable inSection name), next _⟩
    | sect s => exact ⟨adds (·.addSection inSection s.name), next _⟩
    | block b => exact ⟨adds (·.addBlock b.name), next _⟩
    | inclusion i => exact linked_follow same (.same i)
  | @sect s _ h => exact ⟨adds (·.addSection inSection s.name), Agenda.linked_ofNodes h true⟩
  | @block b _ h =>
    cases h with
    | children h => exact ⟨adds (·.addBlock b.name), Agenda.linked_ofNodes h inSection⟩
  | inclusion h => exact linked_follow same h
  | parent h blocks =>
    exact ⟨same, List.rel_append (Agenda.linked_ofBlocks blocks inSection)
      (.cons ⟨rfl, .inclusion h⟩ .nil)⟩

/-- Walks of linked nodes come to an end alike. -/
theorem collects_linked {t u : Template} (h : Forall₂ (Node.Linked loader) t.nodes u.nodes)
    (followed : List String) (d : Dependencies) :
    t.Collects (some loader) followed d ↔ u.Collects (some loader) followed d := by
  have items := Agenda.linked_ofNodes h false
  constructor
  · rintro ⟨w, walks, rfl⟩
    obtain ⟨w', walks', alike⟩ := walks.related (r := Walk.Alike)
      (fun same linked => linked_advance same linked) ⟨rfl, rfl⟩ items
    exact ⟨w', walks', alike.found.symm⟩
  · rintro ⟨w', walks', rfl⟩
    obtain ⟨w, walks, alike⟩ := walks'.related (r := fun w' w => w.Alike w')
      (fun same linked => (linked_advance same linked).imp_right List.Forall₂.flip)
      ⟨rfl, rfl⟩ items.flip
    exact ⟨w, walks, alike.found⟩

end Collection

section Main
variable {loader : Loader} {t : Template} {nodes : List Node}
  (linked : Forall₂ (Node.Linked loader) t.nodes nodes)
include linked

/-- A renderer comes to the same, with the same calls. -/
theorem Renderer.run_linked {σ : Type} (r : Renderer σ) (knows : r.setup.loader = loader) :
    (r.run nodes).result = (r.run t.nodes).result ∧
      (r.run t.nodes).state.SameCalls (r.run nodes).state := by
  subst knows
  have steps : Render.Leads RenderState.SameCalls (fun _ => False)
      (Render.visitAll r.setup r.room r.env t.nodes)
      (Render.visitAll r.setup r.room r.env nodes) :=
    Render.leads_linked r.setup (r.room + 1) (r.env.leads_refl (Node.linked_refl _) _) linked
  have lock := RenderState.SameCalls.lockstep r.setup.host
  rcases run_of_leads lock.writes steps ⟨rfl, rfl, rfl⟩ with ⟨_, -, gone⟩ | same
  · exact gone.elim
  · exact same

/-- A check comes to the same verdict. -/
theorem Template.validate_linked (config : Config) (path : InclusionPath) :
    ({ t with nodes }.validate loader config path).result =
      (t.validate loader config path).result := by
  have checked (s : Template) : (s.validate loader config path).result =
      Render.outcome (Validation.visitAll loader config.maxDepth path s.nodes []) := by
    unfold validate
    cases Validation.visitAll loader config.maxDepth path s.nodes [] <;> rfl
  rw [checked, checked]
  exact (Validation.agree_descend loader config.maxDepth (config.maxDepth + 1) path t.nodes nodes
    linked [] []).symm

/-- Settling partials of a tree ahead of time, with the templates that the loader has for them, changes
neither what a render comes to and what it calls, nor the verdict of a check, nor the dependencies
that are collected with the loader. -/
theorem Template.unchanged_ahead :
    let settled : Template := { t with nodes }
    (∀ {σ : Type} (setup : Setup σ), setup.loader = loader → ∀ data root host,
      let before := (Renderer.fresh setup data root host).run t.nodes
      let after := (Renderer.fresh setup data root host).run settled.nodes
      after.result = before.result ∧ after.state.calls = before.state.calls ∧
        after.state.host = before.state.host) ∧
    (∀ config path,
      (settled.validate loader config path).result = (t.validate loader config path).result) ∧
    (∀ followed d,
      settled.Collects (some loader) followed d ↔ t.Collects (some loader) followed d) ∧
    ∀ catalog : Catalog, catalog.load = loader → ∀ followed,
      (settled.dependencies (some catalog) followed).dependencies =
        (t.dependencies (some catalog) followed).dependencies := by
  intro settled
  have collects (followed : List String) (d : Dependencies) :
      settled.Collects (some loader) followed d ↔ t.Collects (some loader) followed d :=
    (Collection.collects_linked linked followed d).symm
  refine ⟨fun {σ} setup knows data root host => ?_, validate_linked linked, collects,
    fun catalog same followed => ?_⟩
  · have knows : (Renderer.fresh setup data root host).setup.loader = loader := by
      rw [Renderer.fresh_eq]
      exact knows
    obtain ⟨result, same⟩ := Renderer.run_linked linked _ knows
    exact ⟨result, same.calls.symm, same.host.symm⟩
  · subst same
    have before : t.Collects ((some catalog).map Catalog.load) followed
        (t.dependencies (some catalog) followed).dependencies := collects_iff.2 rfl
    exact collects_iff.1 ((collects followed _).2 before)

end Main

/-- A letter whose sheet and salutation have been looked up before. -/
theorem Template.unchanged_letter :
    let short := letter [.inclusion (.named "salutation"), .text ","]
    let opening : Block :=
      ⟨"opening", [.inclusion ⟨"salutation", "", stationery.load "salutation"⟩, .text ","]⟩
    let settled : Template :=
      { short with nodes := [.parent ⟨"sheet", "", stationery.load "sheet"⟩ [opening]] }
    let setup : Setup ScriptedState := ⟨.standard, stationery.load, scriptedHost [] false⟩
    let rendering :=
      (Renderer.fresh setup (.map [("name", .str "Ada")]) (some "letter") .start).run settled.nodes
    Forall₂ (Node.Linked stationery.load) short.nodes settled.nodes ∧
      rendering.result = .ok "  Dear\n  Ada," ∧
      (settled.validate stationery.load .standard .empty).result = .ok () ∧
      (settled.dependencies (some stationery) []).dependencies =
        ⟨["name"], [], ["margin", "salutation", "sheet"], ["opening"], [], ["name"]⟩ := by
  intro short opening settled setup rendering
  have looked_up (name : String) {t : Template} (found : stationery.load name = some t) :
      (Inclusion.named name).Linked stationery.load ⟨name, "", some t⟩ := by
    have target : stationery.load.target? (.named name) = some t := found
    cases t
    exact .settled target (Node.linked_refl _ _)
  have filled : Forall₂ (Block.Linked stationery.load)
      [⟨"opening", [.inclusion (.named "salutation"), .text ","]⟩] [opening] := by
    refine .cons (.children (.cons (.inclusion ?_) (.cons (.same _) .nil))) .nil
    exact looked_up "salutation" rfl
  have linked : Forall₂ (Node.Linked stationery.load) short.nodes settled.nodes :=
    .cons (.parent (looked_up "sheet" rfl) filled) .nil
  obtain ⟨renders, checks, -, depends⟩ := unchanged_ahead linked
  refine ⟨linked, (renders setup rfl _ _ _).1.trans ?_, (checks _ _).trans ?_,
    (depends stationery rfl []).trans ?_⟩
  · decide +kernel
  · decide +kernel
  · cbv

end Mustache
