import Mustache.Proofs.Render.Layout
import Mustache.Render

/-! Steps of a render one after the other. A step never reads what has been written, so what it adds
is the same whatever it starts from; and where no indent is in force it does not matter either
whether a line was open. -/
namespace Mustache.Render
variable {σ : Type} {S S' S'' α β : Type}

theorem bind_apply (step : EStateM Error S α) (next : α → EStateM Error S β) (s : S) :
    (step >>= next) s = match step s with
      | .ok a after => next a after
      | .error error after => .error error after := by
  change EStateM.bind step next s = _
  unfold EStateM.bind
  cases step s <;> rfl

theorem bind_eq_ok {step : EStateM Error S α} {next : α → EStateM Error S β} {s after : S} {b : β}
    (h : (step >>= next) s = .ok b after) :
    ∃ a mid, step s = .ok a mid ∧ next a mid = .ok b after := by
  rw [bind_apply] at h
  cases hs : step s with
  | error e t =>
    rw [hs] at h
    cases h
  | ok a t =>
    rw [hs] at h
    exact ⟨a, t, rfl, h⟩

theorem bind_eq_error {step : EStateM Error S α} {next : α → EStateM Error S β} {s after : S}
    {error : Error} (h : (step >>= next) s = .error error after) :
    step s = .error error after ∨
      ∃ a mid, step s = .ok a mid ∧ next a mid = .error error after := by
  rw [bind_apply] at h
  cases hs : step s with
  | error e t =>
    simp only [hs] at h
    obtain ⟨rfl, rfl⟩ := EStateM.Result.error.inj h
    exact .inl rfl
  | ok a t =>
    simp only [hs] at h
    exact .inr ⟨a, t, rfl, h⟩

/-- A loop that ends well has ended well in every round. -/
theorem forM_eq_ok {nodes : List α} {visit : α → EStateM Error S Unit} {s after : S} {node : α}
    (h : nodes.forM visit s = .ok () after) (mem : node ∈ nodes) :
    ∃ before mid, visit node before = .ok () mid := by
  induction nodes generalizing s with
  | nil => cases mem
  | cons first rest ih =>
    obtain ⟨_, mid, at_first, others⟩ := bind_eq_ok h
    rcases List.mem_cons.1 mem with rfl | mem
    · exact ⟨s, mid, at_first⟩
    · exact ih others mem

/-- A loop fails in one of its rounds. -/
theorem forM_eq_error {nodes : List α} {visit : α → EStateM Error S Unit} {s after : S}
    {error : Error} (h : nodes.forM visit s = .error error after) :
    ∃ node ∈ nodes, ∃ mid, visit node mid = .error error after := by
  induction nodes generalizing s with
  | nil => cases h
  | cons node rest ih =>
    rcases bind_eq_error h with first | ⟨_, mid, -, others⟩
    · exact ⟨node, List.mem_cons_self, s, first⟩
    · obtain ⟨other, mem, at_other⟩ := ih others
      exact ⟨other, List.mem_cons_of_mem _ mem, at_other⟩

/-- The state that a step ends in. -/
def final : EStateM.Result Error S α → S
  | .ok _ s => s
  | .error _ s => s

/-- How a step ends, whatever its state. -/
def outcome : EStateM.Result Error S α → Except Error α
  | .ok a _ => .ok a
  | .error error _ => .error error

/-- The same end in another state. -/
def mapState (f : S → S') : EStateM.Result Error S α → EStateM.Result Error S' α
  | .ok a s => .ok a (f s)
  | .error error s => .error error (f s)

theorem mapState_mapState (f : S → S') (g : S' → S'') (r : EStateM.Result Error S α) :
    mapState g (mapState f r) = mapState (g ∘ f) r := by
  cases r <;> rfl

@[simp] theorem final_mapState (f : S → S') (r : EStateM.Result Error S α) :
    final (mapState f r) = f (final r) := by
  cases r <;> rfl

@[simp] theorem outcome_mapState (f : S → S') (r : EStateM.Result Error S α) :
    outcome (mapState f r) = outcome r := by
  cases r <;> rfl

/-- How a step ends and in which state is all there is to its result. -/
theorem result_ext {r r' : EStateM.Result Error S α} (ends : outcome r = outcome r')
    (state : final r = final r') : r = r' := by
  cases r <;> cases r' <;> cases ends <;> cases state <;> rfl

end Mustache.Render

namespace Mustache.RenderState
variable {σ : Type}

/-- The state with older writes put behind its own. -/
def above (older : List Write) (s : RenderState σ) : RenderState σ :=
  { s with writes := s.writes ++ older }

/-- The state with nothing written. -/
def unwritten (s : RenderState σ) : RenderState σ := { s with writes := [] }

theorem above_above (s : RenderState σ) (newer older : List Write) :
    (s.above newer).above older = s.above (newer ++ older) := by
  simp [above]

end Mustache.RenderState

namespace Mustache.Render
variable {σ : Type} {α β : Type}

theorem checkCancelled_apply (setup : Setup σ) (s : RenderState σ) :
    checkCancelled setup s =
      if setup.host.cancelled s.host then .error .cancelled s else .ok () s := by
  change (if setup.host.cancelled s.host then throw .cancelled else pure () : RenderM σ Unit) s = _
  split <;> rfl

/-- A step that does the same whatever has been written, and puts its writes before those. -/
def Shifts (step : RenderM σ α) : Prop :=
  ∀ s, step s = mapState (RenderState.above s.writes) (step s.unwritten)

theorem Shifts.write (piece : Write) : Shifts (write piece : RenderM σ Unit) := fun _ => rfl

/-- Whatever a captured step writes is taken away again. -/
theorem Shifts.capture (step : RenderM σ Unit) : Shifts (capture step) := by
  intro s
  simp only [Render.capture, RenderState.unwritten]
  split <;> rfl

theorem Shifts.bind {step : RenderM σ α} {next : α → RenderM σ β} (h : Shifts step)
    (hn : ∀ a, Shifts (next a)) : Shifts (step >>= next) := by
  intro s
  rw [bind_apply, bind_apply, h s]
  cases step s.unwritten with
  | error error after => rfl
  | ok a after =>
    change next a (after.above s.writes) = mapState (RenderState.above s.writes) (next a after)
    rw [hn a (after.above s.writes), hn a after, mapState_mapState]
    congr 1
    funext t
    exact (t.above_above after.writes s.writes).symm

theorem Shifts.forM {nodes : List α} {visit : α → RenderM σ Unit}
    (h : ∀ node, Shifts (visit node)) : Shifts (nodes.forM visit) := by
  induction nodes with
  | nil => exact fun _ => rfl
  | cons node rest ih => exact bind (h node) fun _ => ih

/-- A step adds its writes to those there are, and without an indent they do not depend on an open
line. -/
structure Adds (indent : String) (step : RenderM σ α) : Prop where
  shift : Shifts step
  lineFree : indent = "" → ∀ s : RenderState σ, Page.LineFree (final (step s.unwritten)).writes

namespace Adds
variable {indent : String}

/-- A step that leaves the writes alone and does not look at them. -/
theorem of_silent {step : RenderM σ α} (shift : Shifts step)
    (silent : ∀ s : RenderState σ, (final (step s.unwritten)).writes = []) : Adds indent step := by
  refine ⟨shift, fun _ s => ?_⟩
  rw [silent s]
  exact Page.LineFree.nil

theorem pure (a : α) : Adds indent (pure a : RenderM σ α) :=
  of_silent (fun _ => rfl) fun _ => rfl

theorem throw (error : Error) : Adds indent (throw error : RenderM σ α) :=
  of_silent (fun _ => rfl) fun _ => rfl

theorem bind {step : RenderM σ α} {next : α → RenderM σ β} (h : Adds indent step)
    (hn : ∀ a, Adds indent (next a)) : Adds indent (step >>= next) := by
  refine ⟨h.shift.bind fun a => (hn a).shift, fun he s => ?_⟩
  have hs := h.lineFree he s
  rw [bind_apply]
  cases hr : step s.unwritten with
  | error error after => simpa only [hr, final] using hs
  | ok a after =>
    rw [hr] at hs
    simp only
    rw [(hn a).shift after, final_mapState]
    exact ((hn a).lineFree he after).append hs

theorem forM {nodes : List α} {visit : α → RenderM σ Unit} (h : ∀ node, Adds indent (visit node)) :
    Adds indent (nodes.forM visit) := by
  induction nodes with
  | nil => exact pure ()
  | cons node rest ih => exact bind (h node) fun _ => ih

theorem write {piece : Write} (h : indent = "" → Page.LineFree [piece]) :
    Adds indent (write piece : RenderM σ Unit) :=
  ⟨Shifts.write piece, fun he _ => h he⟩

theorem text (text : String) : Adds indent (Render.write (.text indent text) : RenderM σ Unit) :=
  write fun he => he ▸ .text text

theorem value (value written : String) :
    Adds indent (Render.write (.value indent value written) : RenderM σ Unit) :=
  write fun he => he ▸ .value value written

theorem checkCancelled (setup : Setup σ) : Adds indent (checkCancelled setup) := by
  refine of_silent (fun s => ?_) fun s => ?_
  all_goals
    simp only [checkCancelled_apply, RenderState.unwritten]
    split <;> rfl

theorem invoke (setup : Setup σ) (name : String) (lambda : Lambda) (argument : String) :
    Adds indent (invoke setup name lambda argument) := by
  refine of_silent (fun s => ?_) fun s => ?_
  all_goals
    simp only [Render.invoke, RenderState.unwritten]
    split <;> rfl

theorem load (setup : Setup σ) (name : String) : Adds indent (load setup name) := by
  refine of_silent (fun s => ?_) fun s => ?_
  all_goals
    simp only [Render.load, RenderState.unwritten]
    split <;> rfl

theorem capture (step : RenderM σ Unit) : Adds indent (capture step) := by
  refine of_silent (Shifts.capture step) fun s => ?_
  simp only [Render.capture, RenderState.unwritten]
  split <;> rfl

/-- A line that is opened first stands for itself, whatever indent comes into force with it. -/
theorem openLine {inner : String} {step : RenderM σ α} (h : Adds inner step) :
    Adds indent (Render.write .openLine >>= fun _ => step) := by
  refine ⟨(Shifts.write _).bind fun _ => h.shift, fun _ s => ?_⟩
  change Page.LineFree (final (step { s with writes := [.openLine] })).writes
  rw [h.shift, final_mapState]
  exact Page.LineFree.of_openLine _

end Adds

theorem writes_final_invoke (setup : Setup σ) (name : String) (lambda : Lambda) (argument : String)
    (s : RenderState σ) : (final (invoke setup name lambda argument s)).writes = s.writes := by
  simp only [invoke]
  cases (setup.host.invoke lambda argument s.host).1 <;> rfl

theorem writes_final_capture (step : RenderM σ Unit) (s : RenderState σ) :
    (final (capture step s)).writes = s.writes := by
  simp only [capture]
  split <;> rfl

/-- Finding the text of a variable writes nothing, even where a lambda fails half-way. -/
theorem writes_final_interpolated (setup : Setup σ) (deeper : Deeper σ) (env : Env) (name : String)
    (value : Value) (s : RenderState σ) :
    (final (interpolated setup deeper env name value s)).writes = s.writes := by
  cases value with
  | lambda l =>
    have called := writes_final_invoke setup name l "" s
    change (final ((invoke setup name l "" >>= fun returned => capture _) s)).writes = s.writes
    rw [bind_apply]
    cases h : invoke setup name l "" s with
    | error error after =>
      rw [h] at called
      exact called
    | ok returned after =>
      rw [h] at called
      exact (writes_final_capture _ after).trans called
  | null => rfl
  | bool b => rfl
  | int n => rfl
  | float x => rfl
  | str t => rfl
  | list items => rfl
  | map entries => rfl

/-- A variable that fails has written nothing. -/
theorem writes_of_visitInterpolation_error {setup : Setup σ} {deeper : Deeper σ} {env : Env}
    {name : String} {escaped : Bool} {s after : RenderState σ} {error : Error}
    (h : visitInterpolation setup deeper env name escaped s = .error error after) :
    after.writes = s.writes := by
  unfold visitInterpolation at h
  cases hr : env.context.resolve? name with
  | none =>
    simp only [hr] at h
    split at h
    · obtain ⟨-, rfl⟩ := EStateM.Result.error.inj h
      rfl
    · cases h
  | some value =>
    simp only [hr] at h
    rcases bind_eq_error h with failed | ⟨text, mid, -, wrote⟩
    · have kept := writes_final_interpolated setup deeper env name value s
      rw [failed] at kept
      exact kept
    · cases wrote

/-- The template of a partial: the one settled ahead of time, or else the one looked up. -/
def target (setup : Setup σ) (i : Inclusion) : RenderM σ Template :=
  match i.target with
  | some template => pure template
  | none => load setup i.name

/-- Renders the template of a partial, once there is one. -/
def visitTemplate (deeper : Deeper σ) (env : Env) (i : Inclusion) (template : Template) :
    RenderM σ Unit :=
  match env.path.enter i.name with
  | .error error => throw error
  | .ok path =>
    if i.indent.isEmpty then deeper { env with path } template.nodes
    else do
      write .openLine
      deeper { env with path, indent := env.indent ++ i.indent } template.nodes

theorem visitInclusion_eq (setup : Setup σ) (deeper : Deeper σ) (env : Env) (i : Inclusion) :
    visitInclusion setup deeper env i = target setup i >>= visitTemplate deeper env i := by
  unfold visitInclusion target
  cases i.target <;> rfl

/-- What is done with a node once the render is known not to be cancelled. -/
def handle (setup : Setup σ) (deeper : Deeper σ) (env : Env) : Node → RenderM σ Unit
  | .text text => write (.text env.indent text)
  | .interpolation name escaped => visitInterpolation setup deeper env name escaped
  | .sect s => visitSection setup deeper env s
  | .inclusion i => visitInclusion setup deeper env i
  | .parent i overrides =>
    visitInclusion setup deeper { env with overrides := env.overrides.push overrides } i
  | .block b => visitBlock deeper env b

theorem visit_eq (setup : Setup σ) (deeper : Deeper σ) (env : Env) (node : Node) :
    visit setup deeper env node =
      checkCancelled setup >>= fun _ => handle setup deeper env node := by
  cases node <;> rfl

theorem visitAll_singleton (setup : Setup σ) (room : Nat) (env : Env) (n : Node) :
    visitAll setup room env [n] = checkCancelled setup >>= fun _ =>
      handle setup (descend setup room) env n := by
  change (visit setup _ env n >>= fun _ => pure ()) = _
  rw [visit_eq]
  exact bind_pure _

/-- A node fails because the render has been cancelled, or else in its handler. -/
theorem visit_eq_error {setup : Setup σ} {deeper : Deeper σ} {env : Env} {node : Node}
    {s after : RenderState σ} {error : Error}
    (h : visit setup deeper env node s = .error error after) :
    (error = .cancelled ∧ setup.host.cancelled s.host = true ∧ after = s) ∨
      handle setup deeper env node s = .error error after := by
  rw [visit_eq, bind_apply, checkCancelled_apply] at h
  cases flag : setup.host.cancelled s.host with
  | true =>
    rw [flag] at h
    obtain ⟨rfl, rfl⟩ := EStateM.Result.error.inj h
    exact .inl ⟨rfl, rfl, rfl⟩
  | false =>
    rw [flag] at h
    exact .inr h

section Handlers
variable (setup : Setup σ) {deeper : Deeper σ} (env : Env)

theorem adds_interpolated (name : String) (value : Value) :
    Adds env.indent (interpolated setup deeper env name value) := by
  unfold interpolated
  split
  · exact .bind (.invoke ..) fun _ => .capture _
  · split
    · exact .pure _
    · exact .throw _

theorem adds_visitInterpolation (name : String) (escaped : Bool) :
    Adds env.indent (visitInterpolation setup deeper env name escaped) := by
  unfold visitInterpolation
  split
  · split
    · exact .throw _
    · exact .pure _
  · exact .bind (adds_interpolated setup env name _) fun text => .value _ _

variable (hd : ∀ env nodes, Adds env.indent (deeper env nodes))
include hd

theorem adds_renderReturned (text : String) (d : Delimiters) :
    Adds env.indent (renderReturned deeper env text d) := by
  unfold renderReturned
  split
  · exact hd _ _
  · exact .throw _

theorem adds_visitInverted (s : Section) (shape : Shape) :
    Adds env.indent (visitInverted setup deeper env s shape) := by
  unfold visitInverted
  split
  · exact hd _ _
  · exact .pure _
  · exact .pure _
  · split
    · exact .throw _
    · exact .pure _
    · exact hd _ _

theorem adds_visitUpright (s : Section) (value : Value) :
    Adds env.indent (visitUpright setup deeper env s value) := by
  unfold visitUpright
  split
  · exact .forM fun item => hd (env.pushFrame item) _
  · exact .bind (.invoke ..) fun _ => adds_renderReturned env hd _ _
  · split
    · exact .pure _
    · exact hd (env.pushFrame _) _

theorem adds_visitSection (s : Section) : Adds env.indent (visitSection setup deeper env s) := by
  unfold visitSection
  split
  · split
    · exact adds_visitInverted setup env hd s _
    · exact .pure _
  · split
    · exact adds_visitInverted setup env hd s _
    · exact adds_visitUpright setup env hd s _

theorem adds_visitTemplate (i : Inclusion) (template : Template) :
    Adds env.indent (visitTemplate deeper env i template) := by
  unfold visitTemplate
  split
  · exact .throw _
  · rename_i path _
    split
    · exact hd { env with path } _
    · exact .openLine (hd _ _)

theorem adds_visitInclusion (i : Inclusion) :
    Adds env.indent (visitInclusion setup deeper env i) := by
  rw [visitInclusion_eq]
  refine .bind ?_ fun template => adds_visitTemplate env hd i template
  unfold target
  split
  · exact .pure _
  · exact .load _ _

theorem adds_visitBlock (b : Block) : Adds env.indent (visitBlock deeper env b) := by
  unfold visitBlock
  split
  · exact hd _ _
  · rename_i enclosing _
    exact hd { env with overrides := enclosing } _

theorem adds_handle (node : Node) : Adds env.indent (handle setup deeper env node) := by
  cases node with
  | text text => exact .text text
  | interpolation name escaped => exact adds_visitInterpolation setup env name escaped
  | sect s => exact adds_visitSection setup env hd s
  | inclusion i => exact adds_visitInclusion setup env hd i
  | parent i overrides =>
    exact adds_visitInclusion setup { env with overrides := env.overrides.push overrides } hd i
  | block b => exact adds_visitBlock env hd b

theorem adds_visit (node : Node) : Adds env.indent (visit setup deeper env node) := by
  rw [visit_eq]
  exact .bind (.checkCancelled setup) fun _ => adds_handle setup env hd node

end Handlers

theorem adds_descend (setup : Setup σ) (room : Nat) (env : Env) (nodes : List Node) :
    Adds env.indent (descend setup room env nodes) := by
  induction room generalizing env nodes with
  | zero => exact .throw _
  | succ room ih => exact .forM fun node => adds_visit setup env ih node

theorem adds_visitAll (setup : Setup σ) (room : Nat) (env : Env) (nodes : List Node) :
    Adds env.indent (visitAll setup room env nodes) :=
  .forM fun node => adds_visit setup env (adds_descend setup room) node

end Mustache.Render
