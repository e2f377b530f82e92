import Mustache.Proofs.Render.Simulation
import Mustache.Scripted

/-! Milder settings. What renders under some settings renders the same under settings that allow
more levels, do without missing variables, or put up with inverted lambdas. -/
namespace Mustache

/-- Failures that are due to the settings. -/
inductive Error.OfSettings : Error → Prop
  | depth (limit : Nat) : OfSettings (.depthExceeded limit)
  | missing (name : String) : OfSettings (.missingVariable name)
  | inverted (name : String) : OfSettings (.invertedLambda name)

/-- Settings that allow whatever others allow. -/
structure Config.Relaxes (c' c : Config) : Prop where
  depth : c.maxDepth ≤ c'.maxDepth
  strict : c'.strictVariables = true → c.strictVariables = true
  inverted : c'.invertedLambda = c.invertedLambda ∨ c.invertedLambda = .reject

theorem Config.Relaxes.leads {c c' : Config} (h : c'.Relaxes c) :
    c.Leads Error.OfSettings c' where
  strict := by
    cases mild : c'.strictVariables with
    | true => exact .inl (h.strict mild)
    | false => exact .inr ⟨rfl, .missing⟩
  inverted := h.inverted.imp Eq.symm fun reject => ⟨reject, .inverted⟩

/-- Under milder settings a render comes to the same text, with the same calls and the same lookups
in the same order. It fails with the same error too, unless that is due to the settings. -/
theorem Template.render_relaxed {c c' : Config} (relaxed : c'.Relaxes c) {σ : Type}
    (t : Template) (loader : Loader) (host : Host σ) (data : Value) (state : σ) :
    let before := t.render ⟨c, loader, host⟩ data state
    let after := t.render ⟨c', loader, host⟩ data state
    (∀ text, before.result = .ok text →
      after.result = .ok text ∧ after.state.requests = before.state.requests ∧
        after.state.host = before.state.host) ∧
    ∀ error, before.result = .error error → ¬ error.OfSettings → after.result = .error error := by
  intro before after
  have levels : c.Levels Error.OfSettings c' c.maxDepth c'.maxDepth :=
    .inr ⟨relaxed.depth, .depth _⟩
  have steps (env : Env) :
      Render.Leads (· = ·) Error.OfSettings
        (Render.visitAll ⟨c, loader, host⟩ c.maxDepth env t.nodes)
        (Render.visitAll ⟨c', loader, host⟩ c'.maxDepth env t.nodes) :=
    Render.leads_visitAll host.lockstep_eq relaxed.leads (by rfl) levels
      (env.leads_refl (fun _ => rfl) _) t.nodes
  rcases render_of_leads data state rfl host.lockstep_eq.writes steps rfl with
    ⟨error, failed, due⟩ | ⟨result, same⟩
  · refine ⟨fun text ok => ?_, fun error' failed' other => ?_⟩
    · cases failed.symm.trans ok
    · obtain rfl := Except.error.inj (failed.symm.trans failed')
      exact absurd due other
  · refine ⟨fun text ok => ⟨result.trans ok, ?_, ?_⟩, fun error failed _ => result.trans failed⟩
    · exact congrArg RenderState.requests same.symm
    · exact congrArg RenderState.host same.symm

/-- A greeting that a lambda sets in bold, and a note for when there is nobody to greet. -/
def greeting : Template :=
  ⟨some "greeting", "", [
    .sect ⟨"bold", false, ⟨"Hi \x7b\x7bname\x7d\x7d", 0, 11, .standard⟩, []⟩,
    .sect ⟨"name", true, .absent, [.text "nobody"]⟩]⟩

/-- Under one level and strict settings the greeting is the same as under the standard ones, also
where it fails because the name is no text. -/
theorem Template.render_greeting :
    let host := scriptedHost [⟨"bold", .wrap "<b>" "</b>"⟩] false
    let data (name : Value) := Value.map [("bold", .lambda ⟨0⟩), ("name", name)]
    let strict : Config := ⟨1, true, .reject⟩
    let render (c : Config) (name : Value) :=
      greeting.render ⟨c, .empty, host⟩ (data name) .start
    Config.standard.Relaxes strict ∧
      ((render strict (.str "Ada")).result = .ok "<b>Hi Ada</b>" ∧
        (render .standard (.str "Ada")).result = .ok "<b>Hi Ada</b>" ∧
        (render .standard (.str "Ada")).state.requests =
          (render strict (.str "Ada")).state.requests) ∧
      (render strict (.map [])).result = .error (.conversion "name" .map) ∧
        (render .standard (.map [])).result = .error (.conversion "name" .map) := by
  intro host data strict render
  have relaxed : Config.standard.Relaxes strict := ⟨by decide, nofun, .inl rfl⟩
  have ok : (render strict (.str "Ada")).result = .ok "<b>Hi Ada</b>" := by decide +kernel
  have failed : (render strict (.map [])).result = .error (.conversion "name" .map) := by
    decide +kernel
  have same (name : Value) :=
    Template.render_relaxed relaxed greeting .empty host (data name) .start
  obtain ⟨text, requests, -⟩ := (same (.str "Ada")).1 _ ok
  exact ⟨relaxed, ⟨ok, text, requests⟩, failed, (same (.map [])).2 _ failed nofun⟩

end Mustache
