import Mustache.Proofs.Render.Visited
import Mustache.Proofs.Returns

/-! A renderer that works in place calls itself through its handlers, without a bound of its own: only
the counter of levels, which each way down checks, keeps it from going on for ever. It returns, and at
every handler the counter shows how many ways down it is inside of. -/
namespace Mustache

namespace InPlace
open Mustache.Render (final mapState Adds Shifts)
variable {σ : Type} {setup : Setup σ} {m : InPlace σ}

/-- How a step ends, in which state. -/
abbrev End (σ : Type) := EStateM.Result Error (InPlace σ) Unit

/-- One call of the renderer: the handlers of the nodes in order, which call it again. -/
def round (setup : Setup σ) : Program (List Node) (InPlace σ) (End σ) :=
  fun accept nodes => nodes.forM (visit setup accept)

/-- The handlers call the renderer again only on a way down. -/
theorem visit_congr {accept accept' : List Node → Step σ Unit}
    (same : ∀ nodes, deeper setup.config.maxDepth (accept nodes) =
      deeper setup.config.maxDepth (accept' nodes)) (n : Node) :
    visit setup accept n = visit setup accept' n := by
  have returned (text : String) (d : Delimiters) :
      renderReturned setup accept text d = renderReturned setup accept' text d := by
    unfold renderReturned
    simp only [same]
  have inverted (s : Section) (shape : Shape) :
      visitInverted setup accept s shape = visitInverted setup accept' s shape := by
    unfold visitInverted
    simp only [same]
  have included (i : Inclusion) :
      visitInclusion setup accept i = visitInclusion setup accept' i := by
    unfold visitInclusion inside
    simp only [same]
  cases n with
  | text => rfl
  | interpolation name escaped =>
    unfold visit visitInterpolation interpolated
    simp only [returned]
  | sect s =>
    unfold visit visitSection visitUpright withFrame
    simp only [returned, inverted, same]
  | inclusion i | parent i scope =>
    unfold visit
    simp only [included]
  | block b =>
    unfold visit visitBlock detached
    simp only [same]

theorem agrees_deeper {limit : Nat} {step : Step σ Unit} {below : RenderM σ Unit}
    (full : limit ≤ m.depth → below m.unwritten = .error (.depthExceeded limit) m.unwritten)
    (free : m.depth < limit → Agrees step below { m with depth := m.depth + 1 }) :
    Agrees (deeper limit step) below m := by
  by_cases refused : limit ≤ m.depth
  · unfold Agrees deeper
    rw [if_pos refused, full refused]
    rfl
  · unfold Agrees deeper
    rw [if_neg refused]
    refine Agrees.between _ _ (free (Nat.lt_of_not_le refused)) rfl fun s => ?_
    simp only [resume, Nat.add_sub_cancel]

/-- A render in place returns. Each way down leaves fewer levels. -/
theorem returns_round (setup : Setup σ) (nodes : List Node) (m : InPlace σ) :
    Returns (round setup) nodes m
      (acceptAll setup (setup.config.maxDepth - m.depth) nodes m) := by
  refine Returns.of_descent
    (fun nodes m => acceptAll setup (setup.config.maxDepth - m.depth) nodes m) (fun _ _ => True)
    (fun _ m => setup.config.maxDepth - m.depth) ?_ trivial
  intro nodes m accept _ known
  have adds := Render.adds_descend setup (setup.config.maxDepth - m.depth)
  have level (n : InPlace σ) (inner : List Node)
      (same : setup.config.maxDepth - n.depth = setup.config.maxDepth - m.depth) :
      Agrees (deeper setup.config.maxDepth (accept inner))
        (Render.descend setup (setup.config.maxDepth - m.depth) n.env inner) n := by
    refine agrees_deeper (fun full => ?_) fun free => ?_
    · rw [← same, Nat.sub_eq_zero_of_le full]
      rfl
    · have left : setup.config.maxDepth - m.depth = setup.config.maxDepth - (n.depth + 1) + 1 := by
        omega
      unfold Agrees
      rw [known inner _ trivial (by simp only; omega), left]
      exact agrees_acceptAll setup _ { n with depth := n.depth + 1 } rfl inner
  have agrees : Agrees (round setup accept nodes)
      (Render.visitAll setup (setup.config.maxDepth - m.depth) m.env nodes) m :=
    .forM (fun node s => agrees_visit setup level adds (m.resume s) rfl node)
      fun node => (Render.adds_visit setup m.env adds node).shift
  exact agrees.trans (agrees_acceptAll setup _ m rfl nodes).symm

/-- Notes that the handler of a node is entered, inside of other visits, and runs it. What the handler
calls on a way down lies inside of its visit. -/
def tracedVisit (setup : Setup σ) (accept : List Visit × List Node → Step (σ × Trace Visit) Unit)
    (around : List Visit) (n : Node) : Step (σ × Trace Visit) Unit := fun m =>
  let v : Visit := ⟨m.env, n⟩
  visit (setup.noting (Trace Visit)) (fun inner => accept (v :: around, inner)) n
    { m with host := (m.host.1, ⟨m.depth, v, around⟩ :: m.host.2) }

/-- One call of the renderer that notes each handler when it is entered. -/
def tracedRound (setup : Setup σ) :
    Program (List Visit × List Node) (InPlace (σ × Trace Visit)) (End (σ × Trace Visit)) :=
  fun accept (around, nodes) => nodes.forM (tracedVisit setup accept around)

/-- The same notes, where the number of visits is taken for the counter. -/
def entries : Notes σ (Trace Visit) := fun v around s => ⟨around.length, v, around⟩ :: s.host.2

theorem adds_noted (setup : Setup σ) (room : Nat) (around : List Visit) (env : Env)
    (nodes : List Node) : Adds env.indent (Render.noted setup entries room around env nodes) := by
  induction room generalizing around env nodes with
  | zero => exact .throw _
  | succ room ih =>
    refine .forM fun n => .bind ?_ fun _ => Render.adds_visit _ env (ih _) n
    exact .of_silent (fun _ => rfl) fun _ => rfl

theorem agrees_tracedVisit {accept : List Visit × List Node → Step (σ × Trace Visit) Unit}
    {around : List Visit} {room : Nat} {m : InPlace (σ × Trace Visit)}
    (counted : m.depth = around.length) (n : Node)
    (level : ∀ (m' : InPlace (σ × Trace Visit)) inner, setup.config.maxDepth - m'.depth = room →
      Agrees (deeper setup.config.maxDepth (accept (⟨m.env, n⟩ :: around, inner)))
        (Render.noted setup entries room (⟨m.env, n⟩ :: around) m'.env inner) m')
    (left : setup.config.maxDepth - m.depth = room) :
    Agrees (tracedVisit setup accept around n)
      (Render.note entries ⟨m.env, n⟩ around >>= fun _ =>
        Render.visit (setup.noting (Trace Visit))
          (Render.noted setup entries room (⟨m.env, n⟩ :: around)) m.env n) m := by
  have handled := agrees_visit (setup.noting (Trace Visit)) level
    (adds_noted setup room (⟨m.env, n⟩ :: around))
    { m with host := (m.host.1, ⟨m.depth, ⟨m.env, n⟩, around⟩ :: m.host.2) } left n
  change tracedVisit setup accept around n m = mapState m.resume
    (Render.visit _ (Render.noted setup entries room (⟨m.env, n⟩ :: around)) m.env n
      ⟨[], m.requests, m.host.1, ⟨around.length, ⟨m.env, n⟩, around⟩ :: m.host.2⟩)
  rw [← counted]
  exact handled

/-- How a traced render ends, by what is noted where the surroundings are handed down. -/
def tracedEnd (setup : Setup σ) (i : List Visit × List Node) (m : InPlace (σ × Trace Visit)) :
    End (σ × Trace Visit) :=
  mapState m.resume (Render.noted setup entries (setup.config.maxDepth - m.depth + 1) i.1 m.env i.2
    m.unwritten)

/-- A render in place that is traced returns, with the notes that show the counter. -/
theorem returns_tracedRound (setup : Setup σ) (around : List Visit) (nodes : List Node)
    {m : InPlace (σ × Trace Visit)} (counted : m.depth = around.length) :
    Returns (tracedRound setup) (around, nodes) m (tracedEnd setup (around, nodes) m) := by
  refine Returns.of_descent (tracedEnd setup) (fun i m => m.depth = i.1.length)
    (fun _ m => setup.config.maxDepth - m.depth) ?_ counted
  rintro ⟨around, nodes⟩ m accept counted known
  have level (n : Node) (m' : InPlace (σ × Trace Visit)) (inner : List Node)
      (same : setup.config.maxDepth - m'.depth = setup.config.maxDepth - m.depth) :
      Agrees (deeper setup.config.maxDepth (accept (⟨m.env, n⟩ :: around, inner)))
        (Render.noted setup entries (setup.config.maxDepth - m.depth) (⟨m.env, n⟩ :: around)
          m'.env inner) m' := by
    refine agrees_deeper (fun full => ?_) fun free => ?_
    · rw [← same, Nat.sub_eq_zero_of_le full]
      rfl
    · have left : setup.config.maxDepth - m.depth = setup.config.maxDepth - (m'.depth + 1) + 1 := by
        omega
      have one_more : m'.depth + 1 = (⟨m.env, n⟩ :: around : List Visit).length := by
        rw [List.length_cons, ← counted]
        omega
      unfold Agrees
      rw [known (⟨m.env, n⟩ :: around, inner) _ one_more (by simp only; omega), left]
      rfl
  have visited (n : Node) (s : RenderState (σ × Trace Visit)) :=
    agrees_tracedVisit (m := m.resume s) counted n (level n) rfl
  exact Agrees.forM visited fun n =>
    (Shifts.bind (fun _ => rfl) fun _ => (Render.adds_visit _ m.env (adds_noted setup _ _) n).shift)

/-- The state with an empty trace beside that of the host. -/
def traced (m : InPlace σ) : InPlace (σ × Trace Visit) :=
  ⟨m.context, m.overrides, m.path, m.depth, m.indent, m.page, m.requests, m.host, []⟩

/-- The state without its trace. -/
def untraced (m : InPlace (σ × Trace Visit)) : InPlace σ :=
  ⟨m.context, m.overrides, m.path, m.depth, m.indent, m.page, m.requests, m.host.1⟩

/-- The trace changes nothing. -/
theorem untraced_tracedEnd (setup : Setup σ) (nodes : List Node) (m : InPlace σ) :
    mapState untraced (tracedEnd setup ([], nodes) m.traced) =
      acceptAll setup (setup.config.maxDepth - m.depth) nodes m := by
  have plain := agrees_acceptAll setup (setup.config.maxDepth - m.depth) m rfl nodes
  have same := Render.noted_eq setup entries (setup.config.maxDepth - m.depth) m.env nodes
    m.traced.unwritten
  unfold Agrees at plain
  rw [plain, show m.unwritten = m.traced.unwritten.plain from rfl, same]
  unfold tracedEnd
  rw [Render.mapState_mapState, Render.mapState_mapState]
  rfl

end InPlace

namespace Render
variable {σ : Type} (top : Env) (root : List Node) (setup : Setup σ)

/-- What is noted of the handlers so far. -/
def Traced : Asked (σ × Trace Visit) := fun _ s =>
  ∀ e ∈ s.2, e.Counted setup.config.maxDepth ∧ Nested setup.loader top root e.visit e.around

theorem contract_traced (v : Visit) :
    Contract (setup.noting (Trace Visit)) v (Traced top root setup) (Traced top root setup)
      fun _ => Traced top root setup where
  begun h := h
  called h _ _ := h
  loaded h _ := h
  raised h _ := h

theorem ensures_entry {v : Visit} {around : List Visit}
    (within : around.length ≤ setup.config.maxDepth)
    (nested : Nested setup.loader top root v around) :
    Ensures (Traced top root setup) (Traced top root setup) (fun _ => Traced top root setup)
      (note InPlace.entries v around) :=
  fun _ traced => List.forall_mem_cons.2 ⟨⟨⟨rfl, within⟩, nested⟩, traced⟩

theorem ensures_traced {nodes : List Node} (room : Nat) {around : List Visit} {env : Env}
    (levels : around.length + room = setup.config.maxDepth + 1)
    (nested : ∀ n ∈ nodes, Nested setup.loader top root ⟨env, n⟩ around) :
    Ensures (Traced top root setup) (Traced top root setup) (fun _ => Traced top root setup)
      (noted setup InPlace.entries room around env nodes) := by
  refine ensures_noted (fun room v around => around.length + room = setup.config.maxDepth + 1 ∧
      Nested setup.loader top root v around) ?_ ?_ ?_ room fun n mem => ⟨levels, nested n mem⟩
  · exact fun _ _ h => h
  · intro room v around env nodes here way n below
    exact ⟨by rw [List.length_cons]; omega, .inside here.2 way below⟩
  · intro room v around deeper here hd
    refine .bind (ensures_entry top root setup (by omega) here.2) fun _ => ?_
    exact ensures_visit (contract_traced top root setup v) hd

end Render

namespace InPlace
open Mustache.Render (final mapState)
variable {σ : Type}

/-- A renderer returns, whatever the templates, the data and the lambdas. Traced, it returns in the
same way, and whenever a handler is entered the counter shows how many ways down it is inside of. -/
theorem accept_returns (setup : Setup σ) (data : Value) (root : Option String) (host : σ)
    (nodes : List Node) :
    let m := start data root host
    ∃ last traced, Returns (round setup) nodes m last ∧
      m.accept setup nodes = (Render.outcome last, final last) ∧
      Returns (tracedRound setup) ([], nodes) m.traced traced ∧ mapState untraced traced = last ∧
      ∀ e ∈ (final traced).host.2,
        e.Counted setup.config.maxDepth ∧ Nested setup.loader m.env nodes e.visit e.around := by
  intro m
  refine ⟨_, _, returns_round setup nodes m, ?_, returns_tracedRound setup [] nodes rfl,
    untraced_tracedEnd setup nodes m, ?_⟩
  · unfold accept
    cases acceptAll setup (setup.config.maxDepth - m.depth) nodes m <;> rfl
  · unfold tracedEnd
    rw [Render.final_mapState]
    exact (Render.ensures_traced m.env nodes setup (setup.config.maxDepth - m.depth + 1)
      (Nat.zero_add _) fun n mem => .outermost mem).final nofun

end InPlace
end Mustache
