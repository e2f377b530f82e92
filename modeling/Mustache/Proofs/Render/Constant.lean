import Mustache.Proofs.Render.Shifted

/-! A lambda that always returns one text. A variable renders the text aside, on an empty page without
an indent, and writes down what it came to; a section renders it in place. Where no indent is in force
this is the same, up to the escape. -/
namespace Mustache
variable {σ : Type}

/-- A lambda that returns one text for every argument; the argument does not decide either whether a
call raises the flag. -/
structure Host.Constant (h : Host σ) (l : Lambda) (text : String) : Prop where
  answer (argument : String) (s : σ) : (h.invoke l argument s).1 = .ok text
  flag (argument argument' : String) (s : σ) :
    h.cancelled (h.invoke l argument s).2 = h.cancelled (h.invoke l argument' s).2

/-- Behind a call of a lambda. -/
def RenderState.called (h : Host σ) (l : Lambda) (argument : String) (s : RenderState σ) :
    RenderState σ :=
  { s with requests := .call l argument :: s.requests, host := (h.invoke l argument s.host).2 }

namespace Render
variable {setup : Setup σ} {l : Lambda} {text : String}

theorem invoke_of_constant (constant : setup.host.Constant l text) (name argument : String)
    (s : RenderState σ) :
    invoke setup name l argument s = .ok text (s.called setup.host l argument) := by
  simp only [invoke, constant.answer]
  rfl

/-- The end of a variable whose text has been rendered aside: what was written is taken away again,
and the text it comes to is shown instead. -/
def shownAside (escaped : Bool) :
    EStateM.Result Error (RenderState σ) Unit → EStateM.Result Error (RenderState σ) Unit
  | .ok _ inner =>
    .ok () { inner with writes := [.value "" inner.output (shown escaped inner.output)] }
  | .error error inner => .error error { inner with writes := [] }

/-- A variable renders the text aside. -/
theorem visitInterpolation_of_constant (constant : setup.host.Constant l text) (deeper : Deeper σ)
    {env : Env} (flush : env.indent = "") {name : String}
    (found : env.context.resolve? name = some (.lambda l)) (escaped : Bool) {s : RenderState σ}
    (new : s.writes = []) :
    visitInterpolation setup deeper env name escaped s = shownAside escaped
      (renderReturned deeper env text .standard (s.called setup.host l "")) := by
  have same : { env with indent := "" } = env := by rw [← flush]
  have called := invoke_of_constant constant name "" s
  have kept : (s.called setup.host l "").writes = [] := new
  have blank : { s.called setup.host l "" with writes := [] } = s.called setup.host l "" := by
    rw [← new]
    rfl
  unfold visitInterpolation
  rw [found]
  change ((invoke setup name l "" >>= fun returned =>
    capture (renderReturned deeper { env with indent := "" } returned .standard)) >>= fun text =>
      write (.value env.indent text (shown escaped text))) s = _
  rw [same, flush, bind_apply, bind_apply, called]
  dsimp only [capture]
  rw [blank, kept]
  cases renderReturned deeper env text .standard (s.called setup.host l "") <;> rfl

/-- A section renders the text in place, whatever its body is. -/
theorem visitSection_of_constant (constant : setup.host.Constant l text) (deeper : Deeper σ)
    {env : Env} {s : Section} (upright : s.inverted = false) (standard : s.body.delimiters = .standard)
    (found : env.context.resolve? s.name = some (.lambda l)) (state : RenderState σ) :
    visitSection setup deeper env s state =
      renderReturned deeper env text .standard (state.called setup.host l s.body.text) := by
  unfold visitSection
  rw [found]
  refine (congrFun (if_neg (ne_true_of_eq_false upright)) state).trans ?_
  change (invoke setup s.name l s.body.text >>= fun returned =>
    renderReturned deeper env returned s.body.delimiters) state = _
  rw [bind_apply, invoke_of_constant constant, standard]

/-- From states with the same writes on, what a lambda has returned is rendered alike. -/
theorem leads_renderReturned (stateless : setup.host.Stateless) (room : Nat) (env : Env)
    (text : String) (d : Delimiters) :
    Leads (RenderState.SameWrites setup.host) (fun _ => False)
      (renderReturned (descend setup room) env text d)
      (renderReturned (descend setup room) env text d) := by
  have follows : Deeper.Follows (fun _ => False) (fun _ => RenderState.SameWrites setup.host)
      (fun a nodes b nodes' => a = b ∧ nodes = nodes') (descend setup room) (descend setup room) :=
    follows_of_same_or_meets stateless.lockstep (setup.config.leads_refl _) rfl
      Context.matching_eq.kin .inl (.inl ⟨rfl, rfl⟩)
  exact meets_renderReturned follows rfl (fun _ => ⟨rfl, rfl⟩) text

end Render

namespace InPlace
variable {setup : Setup σ}

theorem text_layout_value (text : String) (escaped : Bool) :
    (layout [.value "" text (Render.shown escaped text)]).text = Render.shown escaped text := by
  simp only [layout_cons, layout_nil, Page.put, Page.blank]
  split
  · rename_i empty
    obtain rfl := String.isEmpty_iff.1 empty
    cases escaped <;> rfl
  · simp [Page.opened]

/-- On success a value adds what is shown of it. -/
theorem output_resume_value (m : InPlace σ) (s : RenderState σ) (text : String) (escaped : Bool) :
    (m.resume { s with writes := [.value "" text (Render.shown escaped text)] }).output =
      m.output ++ Render.shown escaped text := by
  have free : Page.LineFree [.value "" text (Render.shown escaped text)] := Page.LineFree.value _ _
  exact (free.text_after m.page).trans (congrArg (m.output ++ ·) (text_layout_value text escaped))

/-- What is rendered aside and then shown, beside what is rendered in place without an indent. -/
theorem behind_shownAside {r r' : EStateM.Result Error (RenderState σ) Unit} {h : Host σ}
    (alike : Render.Ends (RenderState.SameWrites h) (fun _ => False) r r')
    (free : Page.LineFree (Render.final r').writes) (m : InPlace σ) :
    (∀ escaped, (m.behind (Render.shownAside escaped r)).1 = (m.behind r').1) ∧
      ((m.behind r').1 = .ok () → ∃ added, (m.behind r').2.output = m.output ++ added ∧
        ∀ escaped, (m.behind (Render.shownAside escaped r)).2.output =
          m.output ++ Render.shown escaped added) := by
  cases r with
  | ok a t =>
    obtain ⟨t', rfl, same⟩ := alike
    have shows (escaped : Bool) := output_resume_value m t t.output escaped
    have output : t.output = (layout t'.writes).text := by rw [← same.writes, RenderState.output]
    refine ⟨fun _ => rfl, fun _ => ⟨t.output, ?_, shows⟩⟩
    rw [output]
    exact free.text_after m.page
  | error error t =>
    obtain ⟨t', rfl, -⟩ := alike.resolve_left id
    refine ⟨fun _ => rfl, fun ok => ?_⟩
    cases ok

section Constant
variable (stateless : setup.host.Stateless) {m : InPlace σ} (flush : m.indent = "") {text : String}
  {l : Lambda} (constant : setup.host.Constant l text) {s : Section} (upright : s.inverted = false)
  (standard : s.body.delimiters = .standard)
  (found : m.context.resolve? s.name = some (.lambda l))
include stateless flush constant upright standard found

/-- Both render the text from states with the same writes on; all that differs is where. -/
theorem accept_constant_of_active (active : setup.host.cancelled m.host = false) :
    (∀ escaped, (m.accept setup [.interpolation s.name escaped]).1 = (m.accept setup [.sect s]).1) ∧
      ((m.accept setup [.sect s]).1 = .ok () → ∃ added,
        (m.accept setup [.sect s]).2.output = m.output ++ added ∧
          ∀ escaped, (m.accept setup [.interpolation s.name escaped]).2.output =
            m.output ++ Render.shown escaped added) := by
  let deeper := Render.descend setup (setup.config.maxDepth - m.depth)
  have called : RenderState.SameWrites setup.host (m.unwritten.called setup.host l "")
      (m.unwritten.called setup.host l s.body.text) := ⟨rfl, constant.flag _ _ _⟩
  have alike := (Render.leads_renderReturned stateless (setup.config.maxDepth - m.depth) m.env text
    .standard).ends called
  have free := (Render.adds_renderReturned m.env (Render.adds_descend setup
    (setup.config.maxDepth - m.depth)) text .standard).lineFree flush
      (m.unwritten.called setup.host l s.body.text)
  have aside (escaped : Bool) : m.accept setup [.interpolation s.name escaped] = m.behind _ :=
    (accept_of_active active _).trans (congrArg m.behind
      (Render.visitInterpolation_of_constant constant deeper flush found escaped rfl))
  have inPlace : m.accept setup [.sect s] = m.behind _ :=
    (accept_of_active active _).trans (congrArg m.behind
      (Render.visitSection_of_constant constant deeper upright standard found m.unwritten))
  simp only [aside, inPlace]
  exact behind_shownAside alike free m

/-- A variable and a section that name a lambda which always returns one text come to the same result
where no indent is in force, and if they succeed they add the same text. The escaped variable comes to
that result too, and adds the text escaped. -/
theorem accept_constant :
    let plain := m.accept setup [.interpolation s.name false]
    let escaped := m.accept setup [.interpolation s.name true]
    let inside := m.accept setup [.sect s]
    plain.1 = inside.1 ∧ escaped.1 = inside.1 ∧
      (inside.1 = .ok () → ∃ added, plain.2.output = m.output ++ added ∧
        inside.2.output = m.output ++ added ∧
        escaped.2.output = m.output ++ Text.escapeHtml added) := by
  intro plain escaped inside
  cases flag : setup.host.cancelled m.host with
  | true =>
    have stopped (n : Node) : (m.accept setup [n]).1 = .error .cancelled := by
      rw [accept_of_cancelled flag]
    refine ⟨(stopped _).trans (stopped _).symm, (stopped _).trans (stopped _).symm, fun ok => ?_⟩
    cases ok.symm.trans (stopped (.sect s))
  | false =>
    obtain ⟨results, texts⟩ :=
      accept_constant_of_active stateless flush constant upright standard found flag
    refine ⟨results false, results true, fun ok => ?_⟩
    obtain ⟨added, output, shown⟩ := texts ok
    exact ⟨added, shown false, output, shown true⟩

end Constant

/-- A greeting as a variable, escaped and not, and as a section over any body. -/
theorem accept_greeting :
    let setup : Setup ScriptedState :=
      ⟨.standard, .empty, scriptedHost [⟨"greet", .constant "Hi \x7b\x7b\x7bname\x7d\x7d\x7d"⟩] true⟩
    let data := Value.map [("greet", .lambda ⟨0⟩), ("name", .str "<Al>")]
    let m : InPlace ScriptedState := start data (some "page") .start
    let s : Section := ⟨"greet", false, ⟨"to you", 0, 6, .standard⟩, [.text "to you"]⟩
    setup.host.Stateless ∧ m.indent = "" ∧
      setup.host.Constant ⟨0⟩ "Hi \x7b\x7b\x7bname\x7d\x7d\x7d" ∧
      (m.accept setup [.interpolation "greet" false]).1 = .ok () ∧
      (m.accept setup [.interpolation "greet" false]).2.output = "Hi <Al>" ∧
      (m.accept setup [.sect s]).2.output = "Hi <Al>" ∧
      (m.accept setup [.interpolation "greet" true]).2.output = "Hi &lt;Al&gt;" := by
  intro setup data m s
  have stateless : setup.host.Stateless := by
    refine ⟨fun l argument s s' => ?_, flag_scriptedHost _ true⟩
    change (runScript _ l argument s).1 = (runScript _ l argument s').1
    unfold runScript
    rcases l with ⟨_ | n⟩ <;> rfl
  have constant : setup.host.Constant ⟨0⟩ "Hi \x7b\x7b\x7bname\x7d\x7d\x7d" :=
    ⟨fun _ _ => rfl, fun _ _ _ => rfl⟩
  have ok : (m.accept setup [.sect s]).1 = .ok () := by decide +kernel
  have output : (m.accept setup [.sect s]).2.output = "Hi <Al>" := by decide +kernel
  have flush : m.indent = "" := rfl
  have found : m.context.resolve? "greet" = some (.lambda ⟨0⟩) := by rfl
  obtain ⟨plain, -, texts⟩ := accept_constant stateless flush constant (s := s) rfl rfl found
  obtain ⟨added, shown, inside, escaped⟩ := texts ok
  obtain rfl : "Hi <Al>" = added := output.symm.trans (inside.trans String.empty_append)
  refine ⟨stateless, flush, constant, plain.trans ok, shown, output, escaped.trans ?_⟩
  decide +kernel

end InPlace

end Mustache
