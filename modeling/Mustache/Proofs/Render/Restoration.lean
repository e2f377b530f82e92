import Mustache.Proofs.Render.InPlace
import Mustache.Proofs.Render.Steps

/-! The renderer that works in place takes back whatever it has changed, also where a render fails:
it ends as the one that hands its surroundings down, with the surroundings it began with. -/
namespace Mustache.InPlace
open Mustache.Render (mapState final Shifts Adds)
variable {σ α β : Type}

/-- What is in force at the next node. -/
def env (m : InPlace σ) : Env := ⟨m.context, m.overrides, m.path, m.indent⟩

/-- The requests and the host, with nothing written. -/
def unwritten (m : InPlace σ) : RenderState σ := ⟨[], m.requests, m.host⟩

/-- Writes added to the page, in unchanged surroundings. -/
def resume (m : InPlace σ) (s : RenderState σ) : InPlace σ :=
  { m with page := m.page.after s.writes, requests := s.requests, host := s.host }

theorem resume_resume (m : InPlace σ) (s t : RenderState σ) :
    (m.resume s).resume t = m.resume (t.above s.writes) := by
  simp only [resume, RenderState.above, Page.after_append]

/-- From a state on, the step in place ends as the plain one does, with its writes on the page and
the surroundings as they were. -/
def Agrees (step : Step σ α) (plain : RenderM σ α) (m : InPlace σ) : Prop :=
  step m = mapState m.resume (plain m.unwritten)

theorem checkCancelled_apply (setup : Setup σ) (m : InPlace σ) :
    checkCancelled setup m =
      if setup.host.cancelled m.host then .error .cancelled m else .ok () m := by
  change (if setup.host.cancelled m.host then throw .cancelled else Pure.pure () : Step σ Unit) m =
    if setup.host.cancelled m.host then .error .cancelled m else .ok () m
  split <;> rfl

namespace Agrees
variable {m : InPlace σ}

theorem pure (a : α) : Agrees (pure a : Step σ α) (pure a) m := rfl

theorem throw (error : Error) : Agrees (throw error : Step σ α) (throw error) m := rfl

theorem bind {step : Step σ α} {plain : RenderM σ α} {next : α → Step σ β}
    {plainNext : α → RenderM σ β} (h : Agrees step plain m)
    (hn : ∀ a s, Agrees (next a) (plainNext a) (m.resume s))
    (ha : ∀ a, Shifts (plainNext a)) : Agrees (step >>= next) (plain >>= plainNext) m := by
  unfold Agrees at h ⊢
  rw [Render.bind_apply, Render.bind_apply, h]
  cases plain m.unwritten with
  | error error s => rfl
  | ok a s =>
    change next a (m.resume s) = mapState m.resume (plainNext a s)
    have hs : next a (m.resume s) = mapState (m.resume s).resume (plainNext a s.unwritten) := hn a s
    rw [hs, ha a s, Render.mapState_mapState]
    congr 1
    funext t
    exact resume_resume m s t

theorem forM {nodes : List α} {visit : α → Step σ Unit} {plain : α → RenderM σ Unit}
    (h : ∀ node s, Agrees (visit node) (plain node) (m.resume s))
    (ha : ∀ node, Shifts (plain node)) : Agrees (nodes.forM visit) (nodes.forM plain) m := by
  induction nodes generalizing m with
  | nil => exact pure ()
  | cons node rest ih =>
    refine bind (h node m.unwritten) (fun _ s => ih fun node t => ?_) fun _ => .forM ha
    rw [resume_resume]
    exact h node _

/-- A change that is taken back afterwards, up to the writes that the plain step makes with it. -/
theorem around (enter leave : InPlace σ → InPlace σ) (f : RenderState σ → RenderState σ)
    (inner : RenderM σ α) {step : Step σ α} {plain : RenderM σ α} (h : Agrees step inner (enter m))
    (hp : plain m.unwritten = mapState f (inner (enter m).unwritten))
    (hl : ∀ s, leave ((enter m).resume s) = m.resume (f s)) :
    Agrees (between enter leave step) plain m := by
  unfold Agrees at h ⊢
  unfold InPlace.between
  rw [h, hp]
  cases inner (enter m).unwritten with
  | ok a s => simp only [mapState, hl]
  | error error s => simp only [mapState, hl]

/-- A change of the surroundings that is taken back afterwards. -/
theorem between (enter leave : InPlace σ → InPlace σ) {step : Step σ α} {plain : RenderM σ α}
    (h : Agrees step plain (enter m)) (he : (enter m).unwritten = m.unwritten)
    (hl : ∀ s, leave ((enter m).resume s) = m.resume s) :
    Agrees (between enter leave step) plain m := by
  refine around enter leave id plain h ?_ hl
  rw [he]
  cases plain m.unwritten <;> rfl

theorem withScope (scope : OverrideScope) {step : Step σ Unit} {plain : RenderM σ Unit}
    (h : Agrees step plain { m with overrides := m.overrides.push scope }) :
    Agrees (withScope scope step) plain m :=
  between _ _ h rfl fun _ => rfl

theorem write {piece : String → Write} {indent : String} (h : m.indent = indent) :
    Agrees (write piece) (Render.write (piece indent)) m := by
  subst h
  rfl

theorem checkCancelled (setup : Setup σ) :
    Agrees (checkCancelled setup) (Render.checkCancelled setup) m := by
  unfold Agrees
  rw [checkCancelled_apply, Render.checkCancelled_apply]
  change _ = mapState m.resume (if setup.host.cancelled m.host then _ else _)
  split <;> rfl

theorem invoke (setup : Setup σ) (name : String) (lambda : Lambda) (argument : String) :
    Agrees (invoke setup name lambda argument) (Render.invoke setup name lambda argument) m := by
  simp only [Agrees, InPlace.invoke, Render.invoke, unwritten]
  cases (setup.host.invoke lambda argument m.host).1 <;> rfl

theorem target (setup : Setup σ) (i : Inclusion) :
    Agrees (target setup i) (Render.target setup i) m := by
  unfold Agrees InPlace.target Render.target
  cases i.target with
  | some template => rfl
  | none =>
    simp only [Render.load]
    cases setup.loader i.name <;> rfl

/-- The text captured does not depend on whether a line was open outside. -/
theorem capture {step : Step σ Unit} {plain : RenderM σ Unit}
    (h : Agrees step plain { m with page := { m.page with text := "" }, indent := "" })
    (ha : Adds "" plain) : Agrees (capture step) (Render.capture plain) m := by
  have free : Page.LineFree (final (plain m.unwritten)).writes := ha.lineFree rfl m.unwritten
  simp only [Agrees, InPlace.capture, Render.capture] at h ⊢
  simp only [unwritten] at h free ⊢
  rw [h]
  cases hr : plain ⟨[], m.requests, m.host⟩ with
  | error error s => rfl
  | ok a s =>
    rw [hr] at free
    have text : (Page.after ⟨"", m.page.lineStart⟩ s.writes).text =
        (Page.blank.after s.writes).text :=
      free _ _ rfl
    exact congrArg (fun text => EStateM.Result.ok text _) text

end Agrees

section Handlers
variable (setup : Setup σ) {accept : List Node → Step σ Unit} {below : Render.Deeper σ} {room : Nat}
  (level : ∀ m nodes, setup.config.maxDepth - m.depth = room →
    Agrees (deeper setup.config.maxDepth (accept nodes)) (below m.env nodes) m)
include level

theorem agrees_renderReturned (m : InPlace σ) (hm : setup.config.maxDepth - m.depth = room)
    (text : String) (d : Delimiters) :
    Agrees (renderReturned setup accept text d) (Render.renderReturned below m.env text d) m := by
  unfold renderReturned Render.renderReturned
  cases Template.parseWith d text with
  | error error => exact .throw _
  | ok template => exact level m _ hm

theorem agrees_withFrame (m : InPlace σ) (hm : setup.config.maxDepth - m.depth = room)
    (frame : Value) (nodes : List Node) :
    Agrees (withFrame setup.config.maxDepth frame (accept nodes))
      (below (m.env.pushFrame frame) nodes) m := by
  refine .between _ _ ?_ rfl fun s => ?_
  · exact level { m with context := m.context.push frame } nodes hm
  · simp only [resume, Context.pop_push]

theorem agrees_visitInverted (m : InPlace σ) (hm : setup.config.maxDepth - m.depth = room)
    (s : Section) (shape : Shape) :
    Agrees (visitInverted setup accept s shape) (Render.visitInverted setup below m.env s shape)
      m := by
  cases shape with
  | falsey => exact level m _ hm
  | scalar => exact .pure _
  | sequence => exact .pure _
  | renderable =>
    unfold visitInverted Render.visitInverted
    cases setup.config.invertedLambda with
    | reject => exact .throw _
    | truthy => exact .pure _
    | falsey => exact level m _ hm

theorem agrees_detached (m : InPlace σ) (hm : setup.config.maxDepth - m.depth = room)
    {name : String} {override : Block} {enclosing : Overrides}
    (h : m.overrides.resolve? name = some (override, enclosing)) (nodes : List Node) :
    Agrees (detached setup.config.maxDepth enclosing (accept nodes))
      (below { m.env with overrides := enclosing } nodes) m := by
  have outer : (m.overrides.detach enclosing.size).2 = enclosing := Overrides.detach_of_resolve? h
  have whole := m.overrides.restore_detach enclosing.size
  rw [outer] at whole
  refine Agrees.between (fun m' => { m' with overrides := (m.overrides.detach enclosing.size).2 })
    (fun m' => { m' with
      overrides := m'.overrides.restore (m.overrides.detach enclosing.size).1 }) ?_ rfl fun s => ?_
  · rw [outer]
    exact level { m with overrides := enclosing } nodes hm
  · simp only [resume, outer, whole]

theorem agrees_visitBlock (m : InPlace σ) (hm : setup.config.maxDepth - m.depth = room)
    (b : Block) : Agrees (visitBlock setup accept b) (Render.visitBlock below m.env b) m := by
  unfold Agrees visitBlock Render.visitBlock
  rw [show m.env.overrides = m.overrides from rfl]
  cases h : m.overrides.resolve? b.name with
  | none => exact level m _ hm
  | some found => exact agrees_detached setup level m hm h _

variable (adds : ∀ env nodes, Adds env.indent (below env nodes))
include adds

theorem agrees_inside (m : InPlace σ) (hm : setup.config.maxDepth - m.depth = room)
    (i : Inclusion) (template : Template) :
    Agrees (inside setup.config.maxDepth i (accept template.nodes))
      (Render.visitTemplate below m.env i template) m := by
  unfold Agrees inside Render.visitTemplate
  rw [show m.env.path = m.path from rfl]
  cases h : m.path.enter i.name with
  | error error => rfl
  | ok path =>
    have exit : path.exit = m.path := InclusionPath.exit_of_enter h
    have whole : String.ofList (m.indent.toList.take m.indent.length) = m.indent := by
      rw [← String.length_toList, List.take_length, String.ofList_toList]
    have back (added : String) :
        String.ofList ((m.indent ++ added).toList.take m.indent.length) = m.indent := by
      rw [String.toList_append, ← String.length_toList, List.take_left, String.ofList_toList]
    simp only
    by_cases hi : i.indent.isEmpty
    · have entered_eq : entered i path m = { m with path } := if_pos hi
      rw [if_pos hi]
      refine Agrees.between (entered i path) (left m.indent.length) ?_ ?_ fun s => ?_
      · rw [entered_eq]
        exact level { m with path } template.nodes hm
      · rw [entered_eq]
        rfl
      · rw [entered_eq]
        simp only [left, resume, exit, whole]
    · let m' := { m with path, indent := m.indent ++ i.indent, page := m.page.put .openLine }
      have entered_eq : entered i path m = m' := if_neg hi
      rw [if_neg hi]
      refine Agrees.around (entered i path) (left m.indent.length) (RenderState.above [.openLine])
        (below m'.env template.nodes) ?_ ?_ fun s => ?_
      · rw [entered_eq]
        exact level m' template.nodes hm
      · rw [entered_eq]
        exact (adds m'.env template.nodes).shift { m.unwritten with writes := [.openLine] }
      · rw [entered_eq]
        simp only [left, resume, exit, back, m', RenderState.above, Page.after_append,
          Page.after_cons, Page.after_nil]

theorem agrees_visitInclusion (m : InPlace σ) (hm : setup.config.maxDepth - m.depth = room)
    (i : Inclusion) :
    Agrees (visitInclusion setup accept i) (Render.visitInclusion setup below m.env i) m := by
  rw [Render.visitInclusion_eq]
  refine .bind (.target setup i)
    (fun template s => agrees_inside setup level adds (m.resume s) hm i template) fun template => ?_
  exact (Render.adds_visitTemplate m.env adds i template).shift

theorem agrees_interpolated (m : InPlace σ) (hm : setup.config.maxDepth - m.depth = room)
    (name : String) (value : Value) :
    Agrees (interpolated setup accept name value)
      (Render.interpolated setup below m.env name value) m := by
  cases value with
  | lambda l =>
    refine .bind (.invoke ..) (fun returned s => .capture ?_ ?_)
      fun _ => Shifts.capture _
    · exact agrees_renderReturned setup level { m.resume s with page := _, indent := "" } hm _ _
    · exact Render.adds_renderReturned { m.env with indent := "" } adds _ _
  | null => exact .pure _
  | bool b => exact .pure _
  | int n => exact .pure _
  | float x => exact .pure _
  | str s => exact .pure _
  | list items => exact .throw _
  | map entries => exact .throw _

theorem agrees_visitInterpolation (m : InPlace σ) (hm : setup.config.maxDepth - m.depth = room)
    (name : String) (escaped : Bool) :
    Agrees (visitInterpolation setup accept name escaped)
      (Render.visitInterpolation setup below m.env name escaped) m := by
  unfold Agrees visitInterpolation Render.visitInterpolation
  rw [show m.env.context = m.context from rfl]
  cases m.context.resolve? name with
  | none =>
    simp only
    split <;> rfl
  | some value =>
    exact Agrees.bind (agrees_interpolated setup level adds m hm name value)
      (fun text s => .write rfl) fun text => Shifts.write _

theorem agrees_visitUpright (m : InPlace σ) (hm : setup.config.maxDepth - m.depth = room)
    (s : Section) (value : Value) :
    Agrees (visitUpright setup accept s value)
      (Render.visitUpright setup below m.env s value) m := by
  have scalar (v : Value) : Agrees
      (if v.shape = .falsey then pure ()
        else withFrame setup.config.maxDepth v (accept s.children))
      (if v.shape = .falsey then pure () else below (m.env.pushFrame v) s.children) m := by
    split
    · exact .pure _
    · exact agrees_withFrame setup level m hm v _
  cases value with
  | list items =>
    exact .forM
      (fun item t => agrees_withFrame setup level (m.resume t) hm item _)
      fun item => (adds (m.env.pushFrame item) _).shift
  | lambda l =>
    exact .bind (.invoke ..)
      (fun returned t => agrees_renderReturned setup level (m.resume t) hm _ _)
      fun returned => (Render.adds_renderReturned m.env adds _ _).shift
  | null => exact scalar .null
  | bool b => exact scalar (.bool b)
  | int n => exact scalar (.int n)
  | float x => exact scalar (.float x)
  | str t => exact scalar (.str t)
  | map entries => exact scalar (.map entries)

theorem agrees_visitSection (m : InPlace σ) (hm : setup.config.maxDepth - m.depth = room)
    (s : Section) :
    Agrees (visitSection setup accept s) (Render.visitSection setup below m.env s) m := by
  unfold Agrees visitSection Render.visitSection
  rw [show m.env.context = m.context from rfl]
  cases m.context.resolve? s.name with
  | none =>
    simp only
    split
    · exact agrees_visitInverted setup level m hm s _
    · rfl
  | some value =>
    simp only
    split
    · exact agrees_visitInverted setup level m hm s _
    · exact agrees_visitUpright setup level adds m hm s value

theorem agrees_visit (m : InPlace σ) (hm : setup.config.maxDepth - m.depth = room) (node : Node) :
    Agrees (visit setup accept node) (Render.visit setup below m.env node) m := by
  rw [Render.visit_eq]
  unfold visit
  refine .bind (.checkCancelled setup) (fun _ s => ?_) fun _ =>
    (Render.adds_handle setup m.env adds node).shift
  cases node with
  | text text => exact .write rfl
  | interpolation name escaped =>
    exact agrees_visitInterpolation setup level adds (m.resume s) hm name escaped
  | sect t => exact agrees_visitSection setup level adds (m.resume s) hm t
  | inclusion i => exact agrees_visitInclusion setup level adds (m.resume s) hm i
  | parent i overrides =>
    refine .withScope overrides ?_
    exact agrees_visitInclusion setup level adds
      { m.resume s with overrides := m.overrides.push overrides } hm i
  | block b => exact agrees_visitBlock setup level (m.resume s) hm b

end Handlers

/-- By induction on the levels left: the counter refuses the way down exactly where none is left. -/
theorem agrees_acceptAll (setup : Setup σ) (room : Nat) (m : InPlace σ)
    (hm : setup.config.maxDepth - m.depth = room) (nodes : List Node) :
    Agrees (acceptAll setup room nodes) (Render.visitAll setup room m.env nodes) m := by
  have adds (room : Nat) := Render.adds_descend setup room
  induction room generalizing m nodes with
  | zero =>
    have level (m : InPlace σ) (nodes : List Node) (hm : setup.config.maxDepth - m.depth = 0) :
        Agrees (deeper setup.config.maxDepth (pure ())) (Render.descend setup 0 m.env nodes) m := by
      have full : setup.config.maxDepth ≤ m.depth := by omega
      simp only [Agrees, deeper, if_pos full]
      rfl
    exact .forM (fun node s => agrees_visit setup level (adds 0) (m.resume s) hm node)
      fun node => (Render.adds_visit setup m.env (adds 0) node).shift
  | succ room ih =>
    have level (m : InPlace σ) (nodes : List Node)
        (hm : setup.config.maxDepth - m.depth = room + 1) :
        Agrees (deeper setup.config.maxDepth (acceptAll setup room nodes))
          (Render.descend setup (room + 1) m.env nodes) m := by
      have free : ¬ setup.config.maxDepth ≤ m.depth := by omega
      simp only [Agrees, deeper, if_neg free]
      refine Agrees.between _ _ (ih { m with depth := m.depth + 1 } (by simp only; omega) nodes) rfl
        fun s => ?_
      simp only [resume, Nat.add_sub_cancel]
    exact .forM (fun node s => agrees_visit setup level (adds (room + 1)) (m.resume s) hm node)
      fun node => (Render.adds_visit setup m.env (adds (room + 1)) node).shift

theorem accept_eq (setup : Setup σ) (m : InPlace σ) (nodes : List Node) :
    m.accept setup nodes =
      match Render.visitAll setup (setup.config.maxDepth - m.depth) m.env nodes m.unwritten with
      | .ok _ s => (.ok (), m.resume s)
      | .error error s => (.error error, m.resume s) := by
  have h := agrees_acceptAll setup _ m rfl nodes
  unfold Agrees at h
  unfold accept
  rw [h]
  cases Render.visitAll setup (setup.config.maxDepth - m.depth) m.env nodes m.unwritten <;> rfl

/-- What a step comes to that has begun with nothing written: its result, and the renderer behind. -/
def behind (m : InPlace σ) (r : EStateM.Result Error (RenderState σ) Unit) :
    Except Error Unit × InPlace σ :=
  (Render.outcome r, m.resume (Render.final r))

theorem accept_eq_behind (setup : Setup σ) (m : InPlace σ) (nodes : List Node) :
    m.accept setup nodes = m.behind
      (Render.visitAll setup (setup.config.maxDepth - m.depth) m.env nodes m.unwritten) := by
  rw [accept_eq]
  cases Render.visitAll setup (setup.config.maxDepth - m.depth) m.env nodes m.unwritten <;> rfl

theorem checkCancelled_of_flag {setup : Setup σ} {m : InPlace σ} {flag : Bool}
    (h : setup.host.cancelled m.host = flag) :
    Render.checkCancelled setup m.unwritten =
      if flag then .error .cancelled m.unwritten else .ok () m.unwritten := by
  rw [Render.checkCancelled_apply, show setup.host.cancelled m.unwritten.host = flag from h]

theorem accept_of_cancelled {setup : Setup σ} {m : InPlace σ}
    (flag : setup.host.cancelled m.host = true) (n : Node) :
    m.accept setup [n] = (.error .cancelled, m) := by
  rw [accept_eq_behind, Render.visitAll_singleton, Render.bind_apply, checkCancelled_of_flag flag]
  rfl

theorem accept_of_active {setup : Setup σ} {m : InPlace σ}
    (active : setup.host.cancelled m.host = false) (n : Node) :
    m.accept setup [n] = m.behind (Render.handle setup
      (Render.descend setup (setup.config.maxDepth - m.depth)) m.env n m.unwritten) := by
  rw [accept_eq_behind, Render.visitAll_singleton, Render.bind_apply, checkCancelled_of_flag active]
  rfl

/-- Both renderers do the same from the same state on. -/
theorem accept_ofRenderer (r : Renderer σ) (nodes : List Node) :
    (ofRenderer r).accept r.setup nodes = ((r.accept nodes).1, ofRenderer (r.accept nodes).2) := by
  have shift := (Render.adds_visitAll r.setup r.room r.env nodes).shift r.state
  have same (s : RenderState σ) :
      (ofRenderer r).resume s = ofRenderer { r with state := s.above r.state.writes } := by
    simp only [ofRenderer, resume, RenderState.above, ← Page.after_blank, Page.after_append]
  rw [accept_eq]
  unfold Renderer.accept
  rw [shift]
  change (match Render.visitAll r.setup r.room r.env nodes r.state.unwritten with
    | .ok _ s => (Except.ok (), (ofRenderer r).resume s)
    | .error error s => (Except.error error, (ofRenderer r).resume s)) = _
  cases Render.visitAll r.setup r.room r.env nodes r.state.unwritten with
  | ok a s => exact congrArg (fun m => (Except.ok (), m)) (same s)
  | error error s => exact congrArg (fun m => (Except.error error, m)) (same s)

theorem output_of_interpolation_error {setup : Setup σ} {m : InPlace σ} {name : String}
    {escaped : Bool} {error : Error}
    (h : (m.accept setup [.interpolation name escaped]).1 = .error error) :
    (m.accept setup [.interpolation name escaped]).2.output = m.output := by
  rw [accept_eq] at h ⊢
  split at h
  · cases h
  · rename_i s failed
    have kept : s.writes = [] := by
      rcases Render.bind_eq_error failed with visited | ⟨_, mid, -, rest⟩
      · rcases Render.visit_eq_error visited with ⟨-, -, same⟩ | handled
        · rw [same]
          rfl
        · exact Render.writes_of_visitInterpolation_error handled
      · cases rest
    simp only [output, resume, kept, Page.after_nil]

/-- A renderer ends in the surroundings it began with, whether it succeeds or fails, and only adds
to the output. A variable that fails adds nothing. It does what the renderer does that hands its
surroundings down. -/
theorem accept_restores (setup : Setup σ) (m : InPlace σ) (nodes : List Node) :
    let after := (m.accept setup nodes).2
    (after.context = m.context ∧ after.overrides = m.overrides ∧ after.path = m.path ∧
      after.depth = m.depth ∧ after.indent = m.indent) ∧
    (∃ added, after.output = m.output ++ added) ∧
    (∀ name escaped error, (m.accept setup [.interpolation name escaped]).1 = .error error →
      (m.accept setup [.interpolation name escaped]).2.output = m.output) ∧
    ∀ r : Renderer σ, r.setup = setup → ofRenderer r = m →
      m.accept setup nodes = ((r.accept nodes).1, ofRenderer (r.accept nodes).2) := by
  refine ⟨?_, ?_, fun name escaped error => output_of_interpolation_error, fun r hs hm => ?_⟩
  · rw [accept_eq]
    split <;> exact ⟨rfl, rfl, rfl, rfl, rfl⟩
  · rw [accept_eq]
    split <;> exact m.page.after_grows _
  · subst hs hm
    exact accept_ofRenderer r nodes

end Mustache.InPlace
