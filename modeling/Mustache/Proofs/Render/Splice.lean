import Mustache.Proofs.Render.Simulation
import Mustache.Proofs.Site
import Mustache.Scripted

/-! A partial and its nodes in its place. Where a partial has no indent, a render that succeeds comes
to the same text, with the same calls, if the nodes of its template stand in the tree instead: they
are then rendered at a level less, and with a shorter path. -/
namespace Mustache
open List (Forall₂)

mutual

/-- Lists that differ in one place, at any nesting: instead of a partial without an indent, the
other has the nodes of its template there. -/
inductive Node.Spliced (loader : Loader) : List Node → List Node → Prop
  | here {before after : List Node} {i : Inclusion} {t : Template} (inline : i.indent = "")
    (target : loader.target? i = some t) :
    Spliced loader (before ++ .inclusion i :: after) (before ++ (t.nodes ++ after))
  | inside {before after : List Node} {n n' : Node} (h : Node.SplicedInside loader n n') :
    Spliced loader (before ++ n :: after) (before ++ n' :: after)

/-- Nodes that differ so inside of them: in the children of a section or of a block, in the content
of an override, or in a template that is settled ahead of time. -/
inductive Node.SplicedInside (loader : Loader) : Node → Node → Prop
  | sect {s : Section} {children : List Node} (h : Node.Spliced loader s.children children) :
    SplicedInside loader (.sect s) (.sect { s with children })
  | block {b : Block} {children : List Node} (h : Node.Spliced loader b.children children) :
    SplicedInside loader (.block b) (.block { b with children })
  | override {i : Inclusion} {front back : List Block} {b : Block} {children : List Node}
    (h : Node.Spliced loader b.children children) :
    SplicedInside loader (.parent i (front ++ b :: back))
      (.parent i (front ++ { b with children } :: back))
  | settled {i : Inclusion} {t : Template} {nodes : List Node} (target : i.target = some t)
    (h : Node.Spliced loader t.nodes nodes) :
    SplicedInside loader (.inclusion i) (.inclusion { i with target := some { t with nodes } })
  | base {i : Inclusion} {scope : List Block} {t : Template} {nodes : List Node}
    (target : i.target = some t) (h : Node.Spliced loader t.nodes nodes) :
    SplicedInside loader (.parent i scope) (.parent { i with target := some { t with nodes } } scope)

end

/-- The same list, or one that is spliced in one place. -/
def Node.Near (loader : Loader) (nodes nodes' : List Node) : Prop :=
  nodes = nodes' ∨ Spliced loader nodes nodes'

namespace Node
variable {loader : Loader}

theorem near_refl (loader : Loader) (nodes : List Node) : Near loader nodes nodes := .inl rfl

theorem SplicedInside.congruent {n n' : Node} (h : SplicedInside loader n n') :
    n.Congruent loader (fun _ => True) (Near loader) n' := by
  have near := near_refl loader
  have settled {i : Inclusion} {t : Template} {nodes : List Node} (target : i.target = some t)
      (h : Spliced loader t.nodes nodes) :
      i.Congruent loader (Near loader) { i with target := some { t with nodes } } := by
    refine ⟨rfl, rfl, ?_, fun _ _ => near _⟩
    rw [target]
    exact .some (.inr h)
  cases h with
  | sect h => exact .sect ⟨trivial, rfl, rfl, rfl, rfl, .inr h⟩
  | block h => exact .block ⟨rfl, .inr h⟩
  | @override i front back b children h =>
    refine .parent (i.congruent_refl near) ?_
    exact List.rel_append (Block.congruent_refl_forall near front)
      (.cons ⟨rfl, .inr h⟩ (Block.congruent_refl_forall near back))
  | settled target h => exact .inclusion (settled target h)
  | @base i scope t nodes target h =>
    exact .parent (settled target h) (Block.congruent_refl_forall near scope)

end Node

/-- The same text and the same calls; what is looked up may differ. -/
structure RenderState.SameCalls {σ : Type} (s s' : RenderState σ) : Prop where
  writes : s.writes = s'.writes
  calls : s.calls = s'.calls
  host : s.host = s'.host

namespace RenderState
variable {σ : Type}

theorem calls_called (s : RenderState σ) (l : Lambda) (argument : String) (host : σ) :
    calls ⟨s.writes, .call l argument :: s.requests, host⟩ = s.calls ++ [(l, argument)] := by
  simp [calls]

theorem calls_loaded (s : RenderState σ) (name : String) :
    calls { s with requests := .load name :: s.requests } = s.calls := by
  simp [calls]

theorem SameCalls.lockstep (h : Host σ) : h.Lockstep h SameCalls where
  writes same := same.writes
  written same _ := ⟨rfl, same.calls, same.host⟩
  cancelled same := by rw [same.host]
  answer same _ _ := by rw [same.host]
  called {s s'} same l argument := by
    refine ⟨same.writes, ?_, by rw [same.host]⟩
    rw [calls_called, calls_called, same.calls]
  loaded {s s'} same name := by
    refine ⟨same.writes, ?_, same.host⟩
    rw [calls_loaded, calls_loaded, same.calls]

end RenderState

namespace Render
variable {σ : Type}

/-- The render leads another that calls the same, wherever it succeeds. -/
abbrev LeadsCalls {α : Type} (first second : RenderM σ α) : Prop :=
  Leads RenderState.SameCalls (fun _ => True) first second

/-- A step that the first takes alone may fail, or look something up, but call nothing. -/
theorem LeadsCalls.alone {α β : Type} {first : RenderM σ α} {next : α → RenderM σ β}
    {second : RenderM σ β}
    (h : ∀ {s s' a t}, RenderState.SameCalls s s' → first s = .ok a t →
      RenderState.SameCalls t s' ∧ LeadsCalls (next a) second) :
    LeadsCalls (first >>= next) second := by
  intro s s' related
  rw [bind_apply]
  cases ran : first s with
  | error error t => exact .inl trivial
  | ok a t =>
    obtain ⟨same, rest⟩ := h related ran
    exact rest t s' same

theorem ok_of_checkCancelled {setup : Setup σ} {s t : RenderState σ}
    (h : checkCancelled setup s = .ok () t) : t = s := by
  rw [checkCancelled_apply] at h
  split at h
  · cases h
  · exact (EStateM.Result.ok.inj h).2.symm

theorem calls_of_target {setup : Setup σ} {i : Inclusion} {t : Template} {s after : RenderState σ}
    (h : target setup i s = .ok t after) : after.SameCalls s := by
  unfold target at h
  cases settled : i.target with
  | some _ =>
    rw [settled] at h
    obtain ⟨-, rfl⟩ := EStateM.Result.ok.inj h
    exact ⟨rfl, rfl, rfl⟩
  | none =>
    rw [settled] at h
    simp only [load] at h
    split at h
    · obtain ⟨-, rfl⟩ := EStateM.Result.ok.inj h
      exact ⟨rfl, s.calls_loaded i.name, rfl⟩
    · cases h

/-- A partial without an indent is its template, one level further down and under its name. -/
theorem leads_inline {setup : Setup σ} {deeper : Deeper σ} {a : Env} {i : Inclusion} {t : Template}
    (inline : i.indent = "") (target : setup.loader.target? i = some t) {second : RenderM σ Unit}
    (h : ∀ path, a.path.enter i.name = .ok path →
      LeadsCalls (deeper { a with path } t.nodes) second) :
    LeadsCalls (visit setup deeper a (.inclusion i)) second := by
  rw [visit_eq]
  refine .alone fun {s s' _ after} related checked => ?_
  obtain rfl := ok_of_checkCancelled checked
  refine ⟨related, ?_⟩
  change LeadsCalls (visitInclusion setup deeper a i) second
  rw [visitInclusion_eq]
  refine .alone fun {s s' found after} related ran => ?_
  obtain rfl := Option.some.inj ((target_of_ok ran).symm.trans target)
  have quiet := calls_of_target ran
  refine ⟨⟨quiet.writes.trans related.writes, quiet.calls.trans related.calls,
    quiet.host.trans related.host⟩, ?_⟩
  unfold visitTemplate
  rw [inline]
  cases entered : a.path.enter i.name with
  | error error => exact .of_lost trivial _
  | ok path => exact h path entered

/-- By induction on the levels left. Where the partial itself stands, its nodes are rendered a level
less deep, on a path without its name. -/
theorem leads_spliced (setup : Setup σ) {room room' : Nat} (levels : room ≤ room') :
    Deeper.Leads RenderState.SameCalls (fun _ => True) (· = ·) (Node.Near setup.loader)
      (descend setup room) (descend setup room') := by
  have near := Node.near_refl setup.loader
  induction room generalizing room' with
  | zero =>
    intro a b nodes nodes' _ _
    exact .of_lost trivial _
  | succ room ih =>
    obtain ⟨room', rfl⟩ := Nat.exists_eq_add_of_le' levels
    have below : Deeper.Leads RenderState.SameCalls (fun _ => True) (· = ·)
        (Node.Near setup.loader) (descend setup room) (descend setup (room' + room)) :=
      ih (Nat.le_add_left _ _)
    intro a b nodes nodes' env related
    have visited {n n' : Node} (h : n.Congruent setup.loader (fun _ => True)
        (Node.Near setup.loader) n') :
        LeadsCalls (visit setup (descend setup room) a n)
          (visit setup (descend setup (room' + room)) b n') :=
      leads_visit (RenderState.SameCalls.lockstep _) (setup.config.leads_refl _) rfl
        Context.matching_eq (fun _ _ => near _) below env h
    have unchanged (nodes : List Node) :
        LeadsCalls (nodes.forM (visit setup (descend setup room) a))
          (nodes.forM (visit setup (descend setup (room' + room)) b)) :=
      .forM (List.forall₂_same.2 fun n _ => visited (n.congruent_refl near))
    rcases related with rfl | @⟨before, after, i, t, inline, target⟩ | @⟨before, after, n, n', h⟩
    · exact unchanged nodes
    · refine .forM_append (unchanged before) ?_
      rw [show (t.nodes ++ after).forM _ = _ from List.forM_append]
      refine .bind ?_ fun _ => unchanged after
      refine leads_inline inline target fun path entered => ?_
      have shorter : path.Leads (fun _ => True) b.path := by
        refine .inr ⟨?_, fun _ _ => trivial⟩
        rw [(InclusionPath.enter_eq_ok entered).2]
        exact List.subset_append_of_subset_left _ env.path.subset
      have level : Deeper.Leads RenderState.SameCalls (fun _ => True) (· = ·)
          (Node.Near setup.loader) (descend setup room) (descend setup (room' + room + 1)) :=
        ih (by omega)
      exact level ⟨env.context, env.overrides, shorter, env.indent⟩ (near t.nodes)
    · exact .forM_append (unchanged before) (.bind (visited h.congruent) fun _ => unchanged after)

end Render

/-- The nodes of a partial without an indent, in its place: where the partial succeeds, so do they,
and they write the same. -/
theorem Renderer.accept_inline {σ : Type} (r : Renderer σ) {i : Inclusion} (inline : i.indent = "")
    {t : Template} (target : r.setup.loader.target? i = some t)
    (ok : (r.accept [.inclusion i]).1 = .ok ()) :
    (r.accept t.nodes).1 = .ok () ∧
      (r.accept t.nodes).2.state.writes = (r.accept [.inclusion i]).2.state.writes := by
  have spliced : Node.Spliced r.setup.loader [.inclusion i] t.nodes := by
    have here := @Node.Spliced.here r.setup.loader [] [] i t inline target
    rwa [List.nil_append, List.nil_append, List.append_nil] at here
  have steps := Render.leads_spliced r.setup (Nat.le_refl (r.room + 1))
    (r.env.leads_refl (Node.near_refl _) _) (.inr spliced)
  have same : r.state.SameCalls r.state := ⟨rfl, rfl, rfl⟩
  rcases accept_of_ends (steps.ends same) with ⟨error, failed, -⟩ | ⟨result, same⟩
  · cases failed.symm.trans ok
  · exact ⟨result.trans ok, same.writes.symm⟩

/-- With the nodes of its template in the place of a partial without an indent, a template comes to
the same text, with the same calls, wherever it comes to a text at all. -/
theorem Template.render_spliced {σ : Type} (setup : Setup σ) (t : Template) {nodes : List Node}
    (spliced : Node.Spliced setup.loader t.nodes nodes) (data : Value) (host : σ) {text : String}
    (ok : (t.render setup data host).result = .ok text) :
    let before := t.render setup data host
    let after := { t with nodes }.render setup data host
    after.result = .ok text ∧ after.state.calls = before.state.calls ∧
      after.state.host = before.state.host := by
  intro before after
  have lock := RenderState.SameCalls.lockstep setup.host
  have steps (env : Env) :
      Render.LeadsCalls (Render.visitAll setup setup.config.maxDepth env t.nodes)
        (Render.visitAll setup setup.config.maxDepth env { t with nodes }.nodes) :=
    Render.leads_spliced setup (Nat.le_refl (setup.config.maxDepth + 1))
      (env.leads_refl (Node.near_refl _) _) (.inr spliced)
  rcases render_of_leads data host (by rfl) lock.writes steps ⟨rfl, rfl, rfl⟩ with
    ⟨error, failed, -⟩ | ⟨result, same⟩
  · cases failed.symm.trans ok
  · exact ⟨result.trans ok, same.calls.symm, same.host.symm⟩

/-- A letter on a sheet that sets its opening off by a margin. -/
def letter (opening : List Node) : Template :=
  ⟨some "letter", "", [.parent (.named "sheet") [⟨"opening", opening⟩]]⟩

def stationery : Catalog :=
  [("salutation", .ofNodes [.text "Dear\n", .interpolation "name" true]),
    ("sheet", .ofNodes [.inclusion ⟨"margin", "  ", some (.ofNodes [.block ⟨"opening", []⟩])⟩])]

/-- An opening may have its salutation written out. -/
theorem Template.render_letter :
    let setup : Setup ScriptedState :=
      ⟨.standard, stationery.load, scriptedHost [⟨"name", .constant "Ada"⟩] false⟩
    let data := Value.map [("name", .lambda ⟨0⟩)]
    let short := letter [.inclusion (.named "salutation"), .text ","]
    let long := letter [.text "Dear\n", .interpolation "name" true, .text ","]
    let before := short.render setup data .start
    let after := long.render setup data .start
    Node.Spliced setup.loader short.nodes long.nodes ∧ before.result = .ok "  Dear\n  Ada," ∧
      after.result = .ok "  Dear\n  Ada," ∧ after.state.calls = [(⟨0⟩, "")] := by
  intro setup data short long before after
  have target : setup.loader.target? (.named "salutation") =
      some (.ofNodes [.text "Dear\n", .interpolation "name" true]) := rfl
  have content : Node.Spliced setup.loader [.inclusion (.named "salutation"), .text ","]
      [.text "Dear\n", .interpolation "name" true, .text ","] :=
    @Node.Spliced.here _ [] _ _ _ rfl target
  have spliced : Node.Spliced setup.loader short.nodes long.nodes :=
    @Node.Spliced.inside _ [] [] _ _ (@Node.SplicedInside.override _ _ [] [] _ _ content)
  have ok : before.result = .ok "  Dear\n  Ada," := by decide +kernel
  have calls : before.state.calls = [(⟨0⟩, "")] := by decide +kernel
  obtain ⟨result, same, -⟩ := Template.render_spliced setup short spliced data .start ok
  exact ⟨spliced, ok, result, same.trans calls⟩

end Mustache
