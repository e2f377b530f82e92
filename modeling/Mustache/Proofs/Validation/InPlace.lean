import Mustache.Proofs.Render.Returned
import Mustache.Proofs.Valid

/-! A check that works in place: names are put on the path and taken off, levels are counted up and
down. It ends as the check does that hands its path down. It calls itself through its handlers, without
a bound of its own, and returns; at every handler the counter shows how many ways down it is inside
of. -/
namespace Mustache.Validation
open Mustache.Render (bind_apply final mapState)

/-- Everything a check changes in place, and notes that no handler looks at. -/
structure Checker (ν : Type) where
  path : InclusionPath
  depth : Nat
  loads : List String
  notes : ν

namespace Checker
variable {ν α β : Type}

/-- A step of the check. One that fails keeps what it has done. -/
abbrev Step (ν α : Type) := EStateM Error (Checker ν) α

/-- Runs a step between two changes of the state. The second is made also if the step fails. -/
def between (enter leave : Checker ν → Checker ν) (step : Step ν Unit) : Step ν Unit := fun m =>
  mapState leave (step (enter m))

/-- Runs a step one level down. -/
def deeper (limit : Nat) (step : Step ν Unit) : Step ν Unit := fun m =>
  if limit ≤ m.depth then .error (.depthExceeded limit) m
  else between (fun m => { m with depth := m.depth + 1 }) (fun m => { m with depth := m.depth - 1 })
    step m

def target (loader : Loader) (i : Inclusion) : Step ν Template := fun m =>
  match i.target with
  | some template => .ok template m
  | none =>
    let after := { m with loads := i.name :: m.loads }
    match loader i.name with
    | some template => .ok template after
    | none => .error (.partialNotFound i.name) after

/-- Runs a step one level down inside of a partial. -/
def inside (limit : Nat) (name : String) (step : Step ν Unit) : Step ν Unit := fun m =>
  match m.path.enter name with
  | .error error => .error error m
  | .ok path =>
    between (fun m => { m with path }) (fun m => { m with path := m.path.exit })
      (deeper limit step) m

section Handlers
variable (loader : Loader) (limit : Nat) (accept : List Node → Step ν Unit)

def visitInclusion (i : Inclusion) : Step ν Unit := do
  let template ← target loader i
  inside limit i.name (accept template.nodes)

/-- Checks overrides in order, given the names already seen. -/
def visitOverrides (seen : List String) : List Block → Step ν Unit
  | [] => pure ()
  | b :: rest => do
    if seen.contains b.name then throw (.duplicateBlock b.name)
    deeper limit (accept [.block b])
    visitOverrides (b.name :: seen) rest

def visit : Node → Step ν Unit
  | .text _ => pure ()
  | .interpolation _ _ => pure ()
  | .sect s => deeper limit (accept s.children)
  | .inclusion i => visitInclusion loader limit accept i
  | .parent i overrides => do
    visitOverrides limit accept [] overrides
    visitInclusion loader limit accept i
  | .block b => deeper limit (accept b.children)

end Handlers

/-- How a step ends, in which state. -/
abbrev End (ν : Type) := EStateM.Result Error (Checker ν) Unit

/-- One call of the check: the handlers of the nodes in order, which call it again. -/
def round (loader : Loader) (limit : Nat) : Program (List Node) (Checker ν) (End ν) :=
  fun accept nodes => nodes.forM (visit loader limit accept)

/-- A node that is being checked, below a path. -/
structure Visit where
  path : InclusionPath
  node : Node

/-- Notes that the handler of a node is entered, inside of other visits, and runs it. What the handler
calls on a way down lies inside of its visit. -/
def tracedVisit (loader : Loader) (limit : Nat)
    (accept : List Visit × List Node → Step (Trace Visit) Unit) (around : List Visit) (n : Node) :
    Step (Trace Visit) Unit := fun m =>
  let v : Visit := ⟨m.path, n⟩
  visit loader limit (fun inner => accept (v :: around, inner)) n
    { m with notes := ⟨m.depth, v, around⟩ :: m.notes }

/-- One call of the check that notes each handler when it is entered. -/
def tracedRound (loader : Loader) (limit : Nat) :
    Program (List Visit × List Node) (Checker (Trace Visit)) (End (Trace Visit)) :=
  fun accept (around, nodes) => nodes.forM (tracedVisit loader limit accept around)

/-- A check that has not begun, below a path. -/
def start (path : InclusionPath) (notes : ν) : Checker ν := ⟨path, 0, [], notes⟩

/-- The handlers call the check again only on a way down. -/
theorem visit_congr {loader : Loader} {limit : Nat} {accept accept' : List Node → Step ν Unit}
    (same : ∀ nodes, deeper limit (accept nodes) = deeper limit (accept' nodes)) (n : Node) :
    visit loader limit accept n = visit loader limit accept' n := by
  have included (i : Inclusion) :
      visitInclusion loader limit accept i = visitInclusion loader limit accept' i := by
    unfold visitInclusion inside
    simp only [same]
  have overridden (seen : List String) (scope : List Block) :
      visitOverrides limit accept seen scope = visitOverrides limit accept' seen scope := by
    induction scope generalizing seen with
    | nil => rfl
    | cons b rest ih => simp only [visitOverrides, same, ih]
  cases n with
  | text | interpolation => rfl
  | sect | block => exact same _
  | inclusion i => exact included i
  | parent i scope => simp only [visit, overridden, included]

/-- From a state on whose notes are good, two steps in place do the same, and end as a plain one does,
in the same place and with good notes. -/
def Agrees (good : ν → Prop) (step step' : Step ν α) (plain : CheckM α) (m : Checker ν) : Prop :=
  good m.notes → step' m = step m ∧ ∃ notes, good notes ∧
    step m = mapState (fun loads => { m with loads, notes }) (plain m.loads)

namespace Agrees
variable {good : ν → Prop} {m : Checker ν}

theorem pure (a : α) : Agrees good (pure a) (pure a) (pure a) m :=
  fun h => ⟨rfl, m.notes, h, rfl⟩

theorem throw (error : Error) :
    Agrees good (throw error : Step ν α) (throw error) (throw error) m :=
  fun h => ⟨rfl, m.notes, h, rfl⟩

theorem bind {step step' : Step ν α} {plain : CheckM α} {next next' : α → Step ν β}
    {plainNext : α → CheckM β} (h : Agrees good step step' plain m)
    (hn : ∀ a loads notes, Agrees good (next a) (next' a) (plainNext a) { m with loads, notes }) :
    Agrees good (step >>= next) (step' >>= next') (plain >>= plainNext) m := by
  intro before
  obtain ⟨same, notes, after, ran⟩ := h before
  rw [bind_apply, bind_apply, bind_apply, same, ran]
  cases plain m.loads with
  | error error loads => exact ⟨rfl, notes, after, rfl⟩
  | ok a loads => exact hn a loads notes after

theorem forM {items : List α} {visit visit' : α → Step ν Unit} {plain : α → CheckM Unit}
    (h : ∀ item loads notes,
      Agrees good (visit item) (visit' item) (plain item) { m with loads, notes }) :
    Agrees good (items.forM visit) (items.forM visit') (items.forM plain) m := by
  induction items generalizing m with
  | nil => exact pure ()
  | cons item rest ih =>
    exact bind (h item m.loads m.notes) fun _ loads notes => ih fun item loads' notes' => h item _ _

theorem target (loader : Loader) (i : Inclusion) :
    Agrees good (target loader i) (Checker.target loader i) (Validation.target loader i) m := by
  intro h
  refine ⟨rfl, m.notes, h, ?_⟩
  unfold Checker.target Validation.target
  cases i.target with
  | some template => rfl
  | none =>
    simp only [load]
    cases loader i.name <;> rfl

/-- A change that is taken back afterwards. -/
theorem between (enter leave : Checker ν → Checker ν) {step step' : Step ν Unit}
    {plain : CheckM Unit} (h : Agrees good step step' plain (enter m))
    (entered : (enter m).notes = m.notes ∧ (enter m).loads = m.loads)
    (left : ∀ loads notes, leave { enter m with loads, notes } = { m with loads, notes }) :
    Agrees good (between enter leave step) (Checker.between enter leave step') plain m := by
  intro before
  obtain ⟨same, notes, after, ran⟩ := h (entered.1 ▸ before)
  unfold Checker.between
  refine ⟨congrArg _ same, notes, after, ?_⟩
  rw [ran, entered.2, Render.mapState_mapState]
  exact congrArg (mapState · _) (funext fun loads => left loads notes)

end Agrees

section Handlers
variable {loader : Loader} {limit depth : Nat} {good : ν → Prop}
  {accept accept' : List Node → Step ν Unit} {below : Deeper}
  (level : ∀ (m : Checker ν) nodes, m.depth = depth →
    Agrees good (deeper limit (accept nodes)) (deeper limit (accept' nodes)) (below m.path nodes) m)
include level

theorem agrees_visitInclusion (m : Checker ν) (here : m.depth = depth) (i : Inclusion) :
    Agrees good (visitInclusion loader limit accept i) (visitInclusion loader limit accept' i)
      (Validation.visitInclusion loader below m.path i) m := by
  rw [visitInclusion_eq]
  refine .bind (.target loader i) fun template loads notes before => ?_
  unfold inside visitTemplate
  dsimp only
  cases entered : m.path.enter i.name with
  | error error => exact Agrees.throw error before
  | ok path =>
    have exit : path.exit = m.path := InclusionPath.exit_of_enter entered
    refine Agrees.between _ _ (level { m with path, loads, notes } template.nodes here) ⟨rfl, rfl⟩
      (fun loads notes => ?_) before
    simp only [exit]

theorem agrees_visitOverrides (m : Checker ν) (here : m.depth = depth) (seen : List String)
    (scope : List Block) :
    Agrees good (visitOverrides limit accept seen scope) (visitOverrides limit accept' seen scope)
      (Validation.visitOverrides below m.path seen scope) m := by
  induction scope generalizing seen m with
  | nil => exact .pure ()
  | cons b rest ih =>
    unfold visitOverrides Validation.visitOverrides
    split
    · exact .throw _
    · exact .bind (level m _ here) fun _ loads notes => ih { m with loads, notes } here _

/-- One case for each kind of node. -/
theorem agrees_visit (m : Checker ν) (here : m.depth = depth) (n : Node) :
    Agrees good (visit loader limit accept n) (visit loader limit accept' n)
      (Validation.visit loader below m.path n) m := by
  cases n with
  | text | interpolation => exact .pure ()
  | sect s => exact level m _ here
  | block b => exact level m _ here
  | inclusion i => exact agrees_visitInclusion level m here i
  | parent i scope =>
    exact .bind (agrees_visitOverrides level m here [] scope) fun _ loads notes =>
      agrees_visitInclusion level { m with loads, notes } here i

theorem agrees_round (m : Checker ν) (here : m.depth = depth) (nodes : List Node) :
    Agrees good (round loader limit accept nodes) (round loader limit accept' nodes)
      (nodes.forM (Validation.visit loader below m.path)) m :=
  .forM fun n loads notes => agrees_visit level { m with loads, notes } here n

end Handlers

theorem agrees_deeper {limit : Nat} {good : ν → Prop} {step step' : Step ν Unit}
    {below : CheckM Unit} {m : Checker ν}
    (full : limit ≤ m.depth → below = throw (.depthExceeded limit))
    (free : m.depth < limit → Agrees good step step' below { m with depth := m.depth + 1 }) :
    Agrees good (deeper limit step) (deeper limit step') below m := by
  intro before
  by_cases refused : limit ≤ m.depth
  · unfold deeper
    rw [if_pos refused, if_pos refused, full refused]
    exact ⟨rfl, m.notes, before, rfl⟩
  · unfold deeper
    rw [if_neg refused, if_neg refused]
    refine Agrees.between _ _ (free (Nat.lt_of_not_le refused)) ⟨rfl, rfl⟩ (fun loads notes => ?_)
      before
    simp only [Nat.add_sub_cancel]

section Returning
variable (loader : Loader) (limit : Nat)

/-- How a check ends, by what it comes to where the path is handed down. -/
def plainEnd (nodes : List Node) (m : Checker Unit) : End Unit :=
  mapState (fun loads => { m with loads })
    (nodes.forM (Validation.visit loader (descend loader limit (limit - m.depth)) m.path) m.loads)

/-- A check in place returns. Each way down leaves fewer levels. -/
theorem returns_round (nodes : List Node) (m : Checker Unit) :
    Returns (round loader limit) nodes m (plainEnd loader limit nodes m) := by
  refine Returns.of_descent (plainEnd loader limit) (fun _ _ => True) (fun _ m => limit - m.depth) ?_
    trivial
  intro nodes m accept _ known
  have level (m' : Checker Unit) (inner : List Node) (same : m'.depth = m.depth) :
      Agrees (fun _ => True) (deeper limit (accept inner)) (deeper limit (accept inner))
        (descend loader limit (limit - m.depth) m'.path inner) m' := by
    rw [← same]
    refine agrees_deeper (fun full => ?_) fun free _ => ⟨rfl, (), trivial, ?_⟩
    · rw [Nat.sub_eq_zero_of_le full]
      rfl
    · have left : limit - m'.depth = limit - (m'.depth + 1) + 1 := by omega
      rw [known inner _ trivial (by simp only; omega), left]
      rfl
  obtain ⟨-, notes, -, ran⟩ := agrees_round level m rfl nodes trivial
  exact ran

/-- What is noted of the handlers so far. -/
def Counted (trace : Trace Visit) : Prop := ∀ e ∈ trace, e.Counted limit

/-- Renders nodes with `room` levels left, and notes each handler. -/
def tracedAll : (room : Nat) → List Visit × List Node → Step (Trace Visit) Unit
  | 0 => tracedRound loader limit fun _ m => .ok () m
  | room + 1 => tracedRound loader limit (tracedAll room)

theorem agrees_tracedRound {accept accept' : List Visit × List Node → Step (Trace Visit) Unit}
    {below : Deeper} {around : List Visit} {m : Checker (Trace Visit)}
    (level : ∀ v (m' : Checker (Trace Visit)) inner, m'.depth = m.depth →
      Agrees (Counted limit) (deeper limit (accept (v :: around, inner)))
        (deeper limit (accept' (v :: around, inner))) (below m'.path inner) m')
    (counted : m.depth = around.length) (within : m.depth ≤ limit) (nodes : List Node) :
    Agrees (Counted limit) (tracedRound loader limit accept (around, nodes))
      (tracedRound loader limit accept' (around, nodes))
      (nodes.forM (Validation.visit loader below m.path)) m := by
  refine .forM fun n loads notes before => ?_
  exact agrees_visit (level ⟨m.path, n⟩)
    { m with loads, notes := ⟨m.depth, ⟨m.path, n⟩, around⟩ :: notes } rfl n
    (List.forall_mem_cons.2 ⟨⟨counted, within⟩, before⟩)

/-- By induction on the levels left. -/
theorem agrees_tracedAll (room : Nat) {around : List Visit} {m : Checker (Trace Visit)}
    (counted : m.depth = around.length) (levels : m.depth + room = limit) (nodes : List Node) :
    Agrees (Counted limit) (tracedAll loader limit room (around, nodes))
      (tracedAll loader limit room (around, nodes))
      (nodes.forM (Validation.visit loader (descend loader limit room) m.path)) m := by
  induction room generalizing around m nodes with
  | zero =>
    refine agrees_tracedRound loader limit (fun v m' inner same => ?_) counted (by omega) nodes
    exact agrees_deeper (fun _ => rfl) fun free => by omega
  | succ room ih =>
    refine agrees_tracedRound loader limit (fun v m' inner same => ?_) counted (by omega) nodes
    refine agrees_deeper (fun full => by omega) fun free => ?_
    refine @ih (v :: around) { m' with depth := m'.depth + 1 } ?_ ?_ inner
    · rw [List.length_cons, ← counted, ← same]
    · simp only
      omega

/-- A check in place that is traced returns. -/
theorem returns_tracedRound {around : List Visit} {m : Checker (Trace Visit)}
    (counted : m.depth = around.length) (within : m.depth ≤ limit) (notes : Counted limit m.notes)
    (nodes : List Node) :
    Returns (tracedRound loader limit) (around, nodes) m
      (tracedAll loader limit (limit - m.depth) (around, nodes) m) := by
  refine Returns.of_descent (fun i m => tracedAll loader limit (limit - m.depth) i m)
    (fun i m => m.depth = i.1.length ∧ m.depth ≤ limit ∧ Counted limit m.notes)
    (fun _ m => limit - m.depth) ?_ ⟨counted, within, notes⟩
  rintro ⟨around, nodes⟩ m accept ⟨counted, within, notes⟩ known
  have level (accept' : List Visit × List Node → Step (Trace Visit) Unit)
      (unrolled : ∀ room, limit - m.depth = room + 1 → accept' = tracedAll loader limit room)
      (v : Visit) (m' : Checker (Trace Visit)) (inner : List Node) (same : m'.depth = m.depth) :
      Agrees (Counted limit) (deeper limit (accept' (v :: around, inner)))
        (deeper limit (accept (v :: around, inner)))
        (descend loader limit (limit - m.depth) m'.path inner) m' := by
    refine agrees_deeper (fun full => ?_) fun free before => ?_
    · rw [show limit - m.depth = 0 by omega]
      rfl
    · have left : limit - m.depth = limit - (m'.depth + 1) + 1 := by omega
      have one_more : m'.depth + 1 = (v :: around).length := by
        rw [List.length_cons, ← counted, ← same]
      rw [unrolled _ left, left]
      obtain ⟨-, rest⟩ := agrees_tracedAll loader limit (limit - (m'.depth + 1))
        (m := { m' with depth := m'.depth + 1 }) one_more (by simp only; omega) inner before
      exact ⟨known (v :: around, inner) _ ⟨one_more, free, before⟩ (by simp only; omega), rest⟩
  cases room : limit - m.depth with
  | zero =>
    exact (agrees_tracedRound loader limit (level _ (by omega)) counted within nodes notes).1
  | succ room =>
    refine (agrees_tracedRound loader limit (level _ fun _ same => ?_) counted within nodes notes).1
    rw [Nat.succ.inj (room.symm.trans same)]

end Returning

/-- The check without its notes. -/
def untraced (m : Checker (Trace Visit)) : Checker Unit := ⟨m.path, m.depth, m.loads, ()⟩

/-- A check returns, whatever the templates. Traced, it returns in the same way, and whenever a handler
is entered the counter shows how many ways down it is inside of. -/
theorem validate_returns (t : Template) (loader : Loader) (config : Config) (path : InclusionPath) :
    ∃ last traced, Returns (round loader config.maxDepth) t.nodes (start path ()) last ∧
      t.validate loader config path = ⟨Render.outcome last, (final last).loads.reverse⟩ ∧
      Returns (tracedRound loader config.maxDepth) ([], t.nodes) (start path []) traced ∧
      mapState untraced traced = last ∧
      ∀ e ∈ (final traced).notes, e.Counted config.maxDepth := by
  have bare := returns_round loader config.maxDepth t.nodes (start path ())
  have traced := returns_tracedRound loader config.maxDepth (m := start path []) (Eq.refl [].length)
    (Nat.zero_le _) nofun t.nodes
  obtain ⟨-, notes, counted, ran⟩ := agrees_tracedAll loader config.maxDepth config.maxDepth
    (m := start path []) (Eq.refl [].length) (Nat.zero_add _) t.nodes nofun
  refine ⟨_, _, bare, ?_, traced, ?_, ?_⟩
  · unfold Template.validate plainEnd visitAll
    simp only [start, Nat.sub_zero]
    cases t.nodes.forM (Validation.visit loader (descend loader config.maxDepth config.maxDepth) path)
      [] <;> rfl
  · change mapState untraced (tracedAll loader config.maxDepth config.maxDepth _ _) = _
    rw [ran, Render.mapState_mapState]
    rfl
  · change ∀ e ∈ (final (tracedAll loader config.maxDepth config.maxDepth _ _)).notes, _
    rw [ran, Render.final_mapState]
    exact counted

end Checker
end Mustache.Validation

namespace Mustache
open Render (final mapState outcome)
open Validation (Checker)

/-- Rendering and checking return, whatever the templates, the loader, the data and the lambdas. In
place they call themselves again only on a way down. Traced, they return in the same way; whenever a
handler is entered, the counter of levels is the number of the ways down it is inside of, and is
within the limit. -/
theorem Template.returns {σ : Type} (setup : Setup σ) (t : Template) (data : Value)
    (root : Option String) (host : σ) (path : InclusionPath) :
    let limit := setup.config.maxDepth
    let m := InPlace.start data root host
    ((∃ last traced, Returns (InPlace.round setup) t.nodes m last ∧
        m.accept setup t.nodes = (outcome last, final last) ∧
        Returns (InPlace.tracedRound setup) ([], t.nodes) m.traced traced ∧
        mapState InPlace.untraced traced = last ∧
        ∀ e ∈ (final traced).host.2,
          e.Counted limit ∧ Nested setup.loader m.env t.nodes e.visit e.around) ∧
      ∀ accept accept', (∀ nodes,
          InPlace.deeper limit (accept nodes) = InPlace.deeper limit (accept' nodes)) →
        ∀ n, InPlace.visit setup accept n = InPlace.visit setup accept' n) ∧
    (∃ last traced,
        Returns (Checker.round setup.loader limit) t.nodes (Checker.start path ()) last ∧
        t.validate setup.loader setup.config path = ⟨outcome last, (final last).loads.reverse⟩ ∧
        Returns (Checker.tracedRound setup.loader limit) ([], t.nodes) (Checker.start path [])
          traced ∧
        mapState Checker.untraced traced = last ∧ ∀ e ∈ (final traced).notes, e.Counted limit) ∧
      ∀ accept accept' : List Node → Checker.Step Unit Unit, (∀ nodes,
          Checker.deeper limit (accept nodes) = Checker.deeper limit (accept' nodes)) →
        ∀ n, Checker.visit setup.loader limit accept n =
          Checker.visit setup.loader limit accept' n :=
  ⟨⟨InPlace.accept_returns setup data root host t.nodes, fun _ _ => InPlace.visit_congr⟩,
    Checker.validate_returns t setup.loader setup.config path, fun _ _ => Checker.visit_congr⟩

end Mustache
