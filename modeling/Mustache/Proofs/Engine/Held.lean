import Mustache.Node.Equality
import Mustache.Proofs.Engine.Edits
import Mustache.Proofs.Render.Simulation
import Mustache.Scripted

/-! A registered template, rendered by its name and by itself. Both are the same, because every template
is stored under its own name. One that was taken out of an engine before the engine changed renders as
if it had been put back: inside of a template its own name is on the path, so that a partial of this
name is a cycle, whichever template the name has. -/
namespace Mustache

namespace Render
variable {σ : Type} {setup : Setup σ} {loader : Loader} {deeper deeper' : Deeper σ} {env : Env}
  {name : String} {lost : Error → Prop}

/-- The same place on both sides, inside of the template of a name. -/
def Inside (name : String) : Places := fun a nodes b nodes' =>
  a = b ∧ nodes = nodes' ∧ name ∈ a.path.names

/-- The loader does not have the name, and a partial is not found under it. -/
def Lacks (loader : Loader) (name : String) (error : Error) : Prop :=
  loader name = none ∧ error = .partialNotFound name

section Meeting
variable (within : name ∈ env.path.names)
include within

/-- The path only grows on the way down. -/
theorem meets_inside_inclusion (i : Inclusion) :
    i.Meets setup.loader lost (Same σ) (Inside name) env env i := by
  have lock := setup.host.lockstep_eq
  refine .of_enters (.inl rfl) (fun _ => keeps_of_lockstep lock _) fun _ => ?_
  intro path path' entered entered' _
  obtain rfl := Except.ok.inj (entered.symm.trans entered')
  refine ⟨rfl, rfl, ?_⟩
  rw [Env.inside, (InclusionPath.enter_eq_ok entered).2]
  exact List.mem_append_left _ within

/-- One case for each kind of node. -/
theorem meets_inside (n : Node) :
    n.Meets setup.loader True lost (· = ·) (Same σ) (Inside name) env env n := by
  have lock := setup.host.lockstep_eq
  have found (tag : String) :
      Option.Rel (· = ·) (env.context.resolve? tag) (env.context.resolve? tag) :=
    Context.matching_eq.resolve rfl trivial
  cases n with
  | text t => exact .text (keeps_of_lockstep lock _)
  | interpolation tag escaped =>
    refine .interpolation (found tag) (fun _ _ => keeps_of_lockstep lock _) fun _ _ _ _ _ => ?_
    exact ⟨rfl, rfl, within⟩
  | sect s =>
    refine .sect ⟨rfl, rfl, found s.name, ⟨rfl, rfl, within⟩, ?_, fun _ => ⟨rfl, rfl⟩,
      fun _ _ _ _ _ => ?_⟩
    · rintro x _ rfl
      exact ⟨rfl, rfl, within⟩
    · exact ⟨rfl, rfl, within⟩
  | inclusion i => exact .inclusion (meets_inside_inclusion within i)
  | parent i scope =>
    have pushed : name ∈ { env with overrides := env.overrides.push scope }.path.names := within
    exact .parent (meets_inside_inclusion pushed i)
  | block b => exact .block ⟨rfl, rfl, within⟩

end Meeting

/-- A partial whose name is on the path is a cycle, or is not found. -/
theorem leads_cycle {i : Inclusion} (within : i.name ∈ env.path.names)
    (there : (loader i.name).isSome) :
    Leads (· = ·) (Lacks setup.loader i.name) (visitInclusion setup deeper env i)
      (visitInclusion { setup with loader } deeper' env i) := by
  have cycle (deeper : Deeper σ) (t : Template) : visitTemplate deeper env i t =
      throw (.inclusionCycle i.name (env.path.names ++ [i.name])) := by
    rw [visitTemplate, InclusionPath.enter_of_mem within]
  obtain ⟨u, there⟩ := Option.isSome_iff_exists.1 there
  rintro s _ rfl
  rw [visitInclusion_eq, visitInclusion_eq, bind_apply, bind_apply]
  unfold target
  cases i.target with
  | some t =>
    simp only [cycle]
    exact .inr ⟨s, rfl, rfl⟩
  | none =>
    simp only [load, there]
    cases found : setup.loader i.name with
    | none => exact .inl ⟨found, rfl⟩
    | some t =>
      simp only [cycle]
      exact .inr ⟨_, rfl, rfl⟩

section Replaced
variable (others : ∀ other, other ≠ name → setup.loader other = loader other)
include others

theorem visitInclusion_replaced {i : Inclusion} (different : i.name ≠ name) :
    visitInclusion { setup with loader } deeper env i = visitInclusion setup deeper env i := by
  rw [visitInclusion_eq, visitInclusion_eq]
  congr 1
  unfold target
  cases i.target with
  | some t => rfl
  | none =>
    funext s
    simp only [load, others _ different]

variable (there : (loader name).isSome)
include there

/-- Only a partial asks the loader. -/
theorem leads_visit_replaced (within : name ∈ env.path.names)
    (hd : Deeper.Follows (Lacks setup.loader name) (Same σ) (Inside name) deeper deeper') (n : Node) :
    Leads (· = ·) (Lacks setup.loader name) (visit setup deeper env n)
      (visit { setup with loader } deeper' env n) := by
  have tandem : Tandem True (Lacks setup.loader name) setup setup (Same σ) :=
    tandem_of_lockstep True setup.host.lockstep_eq (setup.config.leads_refl _) rfl
  have inclusion {a : Env} (within : name ∈ a.path.names) (i : Inclusion) :
      Leads (· = ·) (Lacks setup.loader name) (visitInclusion setup deeper a i)
        (visitInclusion { setup with loader } deeper' a i) := by
    -- the loaders differ in this name only, and it is on the path
    by_cases again : i.name = name
    · subst again
      exact leads_cycle within there
    · rw [visitInclusion_replaced others again]
      exact meets_visitInclusion tandem hd (meets_inside_inclusion within i)
  cases n with
  | inclusion i =>
    rw [visit_eq, visit_eq]
    exact .bind (.checkCancelled fun same => by rw [same]) fun _ => inclusion within i
  | parent i scope =>
    have pushed : name ∈ { env with overrides := env.overrides.push scope }.path.names := within
    rw [visit_eq, visit_eq]
    exact .bind (.checkCancelled fun same => by rw [same]) fun _ => inclusion pushed i
  | text | interpolation | sect | block =>
    exact meets_visit tandem Context.matching_eq.kin hd (meets_inside within _)

/-- By induction on the levels left. -/
theorem follows_replaced (room : Nat) :
    Deeper.Follows (Lacks setup.loader name) (Same σ) (Inside name) (descend setup room)
      (descend { setup with loader } room) := by
  induction room with
  | zero =>
    rintro a nodes _ _ -
    exact .throw _
  | succ room ih =>
    rintro a nodes _ _ ⟨rfl, rfl, within⟩
    exact .forM (List.forall₂_same.2 fun n _ => leads_visit_replaced others there within ih n)

end Replaced
end Render

theorem Template.withName_of_named {t : Template} {name : String} (named : t.name = some name) :
    t.withName name = t := by
  cases t
  cases named
  rfl

namespace Engine
variable {σ : Type}

theorem renderTemplate_of_named (e : Engine) {name : String} {t : Template}
    (named : t.name = some name) (host : Host σ) (data : Value) (state : σ) :
    e.renderTemplate host t data state =
      ((Renderer.start (e.setup host) data state).rootedAt name).run t.nodes := by
  rw [renderTemplate, Template.render, named]
  rfl

theorem render_of_get? {e : Engine} {name : String} {t : Template} (found : e.get? name = some t)
    (host : Host σ) (data : Value) (state : σ) :
    e.render host name data state =
      ((Renderer.start (e.setup host) data state).rootedAt name).run t.nodes := by
  rw [render, found]

/-- A template that need not be registered renders by itself as it does by its name once it is put in
the engine, unless the name is free and a partial of this name is not found. -/
theorem renderTemplate_eq_or_lacks (e : Engine) {name : String} {t : Template}
    (named : t.name = some name) (host : Host σ) (data : Value) (state : σ) :
    let single := e.renderTemplate host t data state
    single = (e.put name t).render host name data state ∨
      e.get? name = none ∧ single.result = .error (.partialNotFound name) := by
  intro single
  let r := (Renderer.start (e.setup host) data state).rootedAt name
  let r' := (Renderer.start ((e.put name t).setup host) data state).rootedAt name
  have put : (e.put name t).get? name = some t := by
    rw [get?, Engine.put, Entries.get?_insert, if_pos rfl, t.withName_of_named named]
  have others (other : String) (different : other ≠ name) :
      r.setup.loader other = r'.setup.loader other := by
    have same : (e.put name t).get? other = e.get? other := by
      rw [get?, Engine.put, Entries.get?_insert, if_neg different.symm]
      rfl
    exact same.symm
  have there : (r'.setup.loader name).isSome := Option.isSome_iff_exists.2 ⟨t, put⟩
  have steps : Render.Leads (Render.Same σ "") (Render.Lacks e.templates.load name)
      (Render.visitAll r.setup r.room r.env t.nodes)
      (Render.visitAll r'.setup r'.room r'.env t.nodes) :=
    Render.follows_replaced others there (r.room + 1) r.env t.nodes r.env t.nodes
      ⟨rfl, rfl, List.mem_singleton_self name⟩
  have by_itself : single = r.run t.nodes := e.renderTemplate_of_named named host data state
  have by_name : (e.put name t).render host name data state = r'.run t.nodes :=
    render_of_get? put host data state
  rw [by_itself, by_name]
  rcases Renderer.run_of_leads (fun same => by rw [same]) steps rfl with
    ⟨error, failed, free, rfl⟩ | ⟨result, after⟩
  · exact .inr ⟨free, failed⟩
  · left
    cases ran : r.run t.nodes
    cases ran' : r'.run t.nodes
    rw [ran, ran'] at result after
    exact congrArg₂ Rendering.mk result.symm after

/-- In an engine reached by any calls every template has the name that it is found under, so it renders
by this name as it does by itself, with partials from the engine: to the same text or error, with the
same requests. Behind further calls it renders its own nodes still, with partials from the engine as it
is then. This is how it would render if it were put back, but for one case: where its name has been
removed, and a partial of this name is not found that would otherwise be a cycle. -/
theorem render_held (config : Config) (edits : List Edit) {name : String} {t : Template}
    (found : ((new config).edited edits).get? name = some t) :
    let e := (new config).edited edits
    t.name = some name ∧
      (∀ {σ : Type} (host : Host σ) (data : Value) (state : σ),
        e.render host name data state = e.renderTemplate host t data state) ∧
      ∀ (later : List Edit) {σ : Type} (host : Host σ) (data : Value) (state : σ),
        let now := e.edited later
        let held := now.renderTemplate host t data state
        held = ((Renderer.start ⟨config, now.templates.load, host⟩ data state).rootedAt name).run
          t.nodes ∧
          (held = (now.put name t).render host name data state ∨
            now.get? name = none ∧ held.result = .error (.partialNotFound name)) := by
  intro e
  have named : t.name = some name := named_edited config edits name t found
  refine ⟨named, fun host data state => ?_, fun later σ host data state => ?_⟩
  · rw [render_of_get? found, e.renderTemplate_of_named named]
  · intro now held
    have settings : now.config = config := (config_edited _ _).trans (config_edited _ _)
    have own := now.renderTemplate_of_named named host data state
    rw [setup, settings] at own
    exact ⟨own, now.renderTemplate_eq_or_lacks named host data state⟩

/-- A page with a side, which includes itself where there is more. -/
def draft : Template :=
  ⟨some "draft", "", [.text "A ", .inclusion (.named "side"),
    .sect (.ofChildren "more" false [.inclusion (.named "page")])]⟩

/-- The page is held while both are reloaded, and while it is removed. -/
theorem render_held_draft :
    let host := scriptedHost [] false
    let data (more : Bool) : Value := .map [("more", .bool more), ("x", .str "1")]
    let e := (new .standard).edited [.add "side" "(\x7b\x7bx\x7d\x7d)", .insert "page" draft,
      .add "page" "C"]
    let now := e.edited [.reload "side" "[\x7b\x7bx\x7d\x7d]", .reload "page" "B"]
    let gone := e.edited [.remove "page"]
    let page := draft.withName "page"
    e.get? "page" = some page ∧
      (∀ more, e.render host "page" (data more) .start =
        e.renderTemplate host page (data more) .start) ∧
      (e.render host "page" (data true) .start).result =
        .error (.inclusionCycle "page" ["page", "page"]) ∧
      (now.render host "page" (data false) .start).result = .ok "B" ∧
      (now.renderTemplate host page (data false) .start).result = .ok "A [1]" ∧
      now.renderTemplate host page (data true) .start =
        (now.put "page" page).render host "page" (data true) .start ∧
      (gone.renderTemplate host page (data true) .start).result =
        .error (.partialNotFound "page") := by
  intro host data e now gone page
  have found : e.get? "page" = some page := by decide +kernel
  obtain ⟨-, both, held⟩ := render_held .standard _ found
  refine ⟨found, fun more => both host (data more) .start, by decide +kernel, by decide +kernel,
    by decide +kernel, ?_, by decide +kernel⟩
  have taken : now.get? "page" ≠ none := by decide +kernel
  exact (held [.reload "side" "[\x7b\x7bx\x7d\x7d]", .reload "page" "B"] host (data true)
    .start).2.resolve_right fun free => taken free.1

end Engine
end Mustache
