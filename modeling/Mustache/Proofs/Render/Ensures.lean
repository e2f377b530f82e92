import Mustache.Proofs.Render.Noted

/-! What is sure of a render from the visit of one node on: where its handler goes down to, for which
reasons it fails by itself, and what it asks for. A handler fails by itself only before it has gone
down, and asks for one thing at most. -/
namespace Mustache
variable {σ : Type} {α β : Type}

namespace Visit

/-- What a handler renders one level down, and the surroundings there. -/
inductive Below (loader : Loader) (v : Visit) : Env → List Node → Prop
  | children {s : Section} (tag : v.node = .sect s) : Below loader v v.env s.children
  | framed {s : Section} {value frame : Value} (tag : v.node = .sect s)
    (found : v.env.context.resolve? s.name = some value)
    (part : frame = value ∨ ∃ items, value = .list items ∧ frame ∈ items) :
    Below loader v (v.env.pushFrame frame) s.children
  | returned {name indent text : String} {l : Lambda} {d : Delimiters} {t : Template}
    (tag : (∃ s, v.node = .sect s ∧ s.name = name) ∨ ∃ escaped, v.node = .interpolation name escaped)
    (found : v.env.context.resolve? name = some (.lambda l))
    (parsed : Template.parseWith d text = .ok t) : Below loader v { v.env with indent } t.nodes
  | content {b : Block} (tag : v.node = .block b) :
    Below loader v (v.env.atContent b) (v.env.overrides.content b).1.children
  | inclusion {i : Inclusion} {inner : Overrides} {path : InclusionPath} {t : Template}
    (includes : v.node.Includes v.env.overrides i inner) (target : loader.target? i = some t)
    (entered : v.env.path.enter i.name = .ok path) :
    Below loader v (Env.inside { v.env with overrides := inner } i path) t.nodes

/-- Why a handler fails by itself. -/
inductive Raises (setup : Setup σ) (v : Visit) : Error → Prop
  | cancelled {state : σ} (flag : setup.host.cancelled state = true) : Raises setup v .cancelled
  | missing {name : String} {escaped : Bool} (tag : v.node = .interpolation name escaped)
    (absent : v.env.context.resolve? name = none)
    (strict : setup.config.strictVariables = true) : Raises setup v (.missingVariable name)
  | conversion {name : String} {escaped : Bool} {value : Value}
    (tag : v.node = .interpolation name escaped)
    (found : v.env.context.resolve? name = some value) (textless : value.text? = none) :
    Raises setup v (.conversion name value.kind)
  | fault {error : Error} (fault : (v.env.site [v.node]).Fault setup.loader error) :
    Raises setup v error
  | lambda {name : String} {l : Lambda} {error : Error}
    (found : v.env.context.resolve? name = some (.lambda l))
    (about : (∃ message, error = .lambdaFailed name message) ∨ error = .invertedLambda name ∨
      ∃ e, error = .parse e) : Raises setup v error

/-- The visit of a partial that is to be looked up under a name. -/
def LooksUp (v : Visit) (name : String) : Prop :=
  ∃ i inner, v.node.Includes v.env.overrides i inner ∧ i.target = none ∧ i.name = name

end Visit

namespace Render

/-- A property of what a render has asked for and of the state of its host. -/
abbrev Asked (σ : Type) := List Request → σ → Prop

/-- From `before` on a step that succeeds ends with `after`, and one that fails with `fails`. -/
def Ensures (before after : Asked σ) (fails : Error → Asked σ) (step : RenderM σ α) : Prop :=
  ∀ s, before s.requests s.host →
    match step s with
    | .ok _ t => after t.requests t.host
    | .error error t => fails error t.requests t.host

namespace Ensures
variable {before mid after : Asked σ} {fails : Error → Asked σ}

theorem pure (a : α) (h : ∀ requests host, before requests host → after requests host) :
    Ensures before after fails (pure a : RenderM σ α) := fun s hs => h _ s.host hs

theorem throw {error : Error} (h : ∀ requests host, before requests host → fails error requests host) :
    Ensures before after fails (throw error : RenderM σ α) := fun s hs => h _ s.host hs

theorem write (piece : Write) (h : ∀ requests host, before requests host → after requests host) :
    Ensures before after fails (write piece : RenderM σ Unit) := fun s hs => h _ s.host hs

theorem of_imp {step : RenderM σ α} (h : Ensures mid after fails step)
    (hb : ∀ requests host, before requests host → mid requests host) :
    Ensures before after fails step := fun s hs => h s (hb _ _ hs)

theorem bind_of_ok {first : RenderM σ α} {next : α → RenderM σ β}
    (h : Ensures before mid fails first)
    (hn : ∀ {a s t}, first s = .ok a t → Ensures mid after fails (next a)) :
    Ensures before after fails (first >>= next) := by
  intro s hs
  have head := h s hs
  rw [bind_apply]
  cases ran : first s with
  | ok a t =>
    rw [ran] at head
    exact hn ran t head
  | error error t =>
    rw [ran] at head
    exact head

theorem bind {first : RenderM σ α} {next : α → RenderM σ β} (h : Ensures before mid fails first)
    (hn : ∀ a, Ensures mid after fails (next a)) : Ensures before after fails (first >>= next) :=
  bind_of_ok h fun _ => hn _

theorem forM {items : List α} {visit : α → RenderM σ Unit}
    (h : ∀ item ∈ items, Ensures after after fails (visit item)) :
    Ensures after after fails (items.forM visit) := by
  induction items with
  | nil => exact pure () fun _ _ hs => hs
  | cons item rest ih =>
    obtain ⟨first, others⟩ := List.forall_mem_cons.1 h
    exact bind first fun _ => ih others

/-- The page on which a step writes does not matter. -/
theorem capture {step : RenderM σ Unit} (h : Ensures before after fails step) :
    Ensures before after fails (capture step) := by
  intro s hs
  have inner := h { s with writes := [] } hs
  simp only [Render.capture]
  cases ran : step { s with writes := [] } with
  | ok a t =>
    rw [ran] at inner
    exact inner
  | error error t =>
    rw [ran] at inner
    exact inner

/-- What holds however a step ends. -/
theorem final {step : RenderM σ Unit} (h : Ensures before after (fun _ => after) step)
    {s : RenderState σ} (hs : before s.requests s.host) :
    after (final (step s)).requests (final (step s)).host := by
  have ended := h s hs
  cases ran : step s with
  | ok a t =>
    rw [ran] at ended
    exact ended
  | error error t =>
    rw [ran] at ended
    exact ended

end Ensures

/-- What has to be known of a visit in order to know what its handler ensures once it has gone past the
flag: what holds before it has asked for anything, what holds from its request on, what holds from its
first way down on, and what holds if it fails. No handler asks for two things. -/
structure Stages (setup : Setup σ) (v : Visit) (before asked after : Asked σ)
    (fails : Error → Asked σ) : Prop where
  waived {requests : List Request} {host : σ} (h : before requests host) : asked requests host
  called {requests : List Request} {host : σ} (h : before requests host) (l : Lambda)
    (argument : String) :
    asked (.call l argument :: requests) (setup.host.invoke l argument host).2
  loaded {requests : List Request} {host : σ} {name : String} (h : before requests host)
    (asks : v.LooksUp name) : asked (.load name :: requests) host
  begun {requests : List Request} {host : σ} (h : asked requests host) : after requests host
  raised {requests : List Request} {host : σ} {error : Error} (h : asked requests host)
    (raises : v.Raises setup error) (uncancelled : error ≠ .cancelled) : fails error requests host

section Handlers
variable {setup : Setup σ} {deeper : Deeper σ} {v : Visit} {before asked after : Asked σ}
  {fails : Error → Asked σ} (stages : Stages setup v before asked after fails)
include stages

theorem ensures_raise {error : Error} (raises : v.Raises setup error)
    (uncancelled : error ≠ .cancelled) :
    Ensures asked after fails (throw error : RenderM σ α) :=
  .throw fun _ _ h => stages.raised h raises uncancelled

theorem ensures_done (a : α) : Ensures asked after fails (pure a : RenderM σ α) :=
  .pure a fun _ _ h => stages.begun h

/-- A handler need not ask for anything. -/
theorem ensures_waived {step : RenderM σ α} (h : Ensures asked after fails step) :
    Ensures before after fails step := h.of_imp fun _ _ => stages.waived

theorem ensures_invoke {name : String} {l : Lambda} (argument : String)
    (found : v.env.context.resolve? name = some (.lambda l)) :
    Ensures before asked fails (invoke setup name l argument) := by
  intro s hs
  have called := stages.called hs l argument
  simp only [invoke]
  cases (setup.host.invoke l argument s.host).1 with
  | ok text => exact called
  | error message => exact stages.raised called (.lambda found (.inl ⟨message, rfl⟩)) (by simp)

theorem ensures_target {i : Inclusion} {inner : Overrides}
    (includes : v.node.Includes v.env.overrides i inner) :
    Ensures before asked fails (target setup i) := by
  unfold Render.target
  cases settled : i.target with
  | some t => exact .pure t fun _ _ => stages.waived
  | none =>
    intro s hs
    have loaded := stages.loaded hs ⟨i, inner, includes, settled, rfl⟩
    simp only [load]
    cases found : setup.loader i.name with
    | some t => exact loaded
    | none =>
      have absent : setup.loader.target? i = none := by rw [Loader.target?, settled, found]
      exact stages.raised loaded
        (.fault (.missing (List.mem_singleton_self _) includes absent)) (by simp)

variable (hd : ∀ {env nodes}, v.Below setup.loader env nodes →
  Ensures after after fails (deeper env nodes))
include hd

theorem ensures_below {env : Env} {nodes : List Node} (way : v.Below setup.loader env nodes) :
    Ensures asked after fails (deeper env nodes) :=
  (hd way).of_imp fun _ _ h => stages.begun h

theorem ensures_renderReturned {name : String} {l : Lambda} (indent text : String) (d : Delimiters)
    (tag : (∃ s, v.node = .sect s ∧ s.name = name) ∨ ∃ escaped, v.node = .interpolation name escaped)
    (found : v.env.context.resolve? name = some (.lambda l)) :
    Ensures asked after fails (renderReturned deeper { v.env with indent } text d) := by
  unfold renderReturned
  cases parsed : Template.parseWith d text with
  | ok t => exact ensures_below stages hd (.returned tag found parsed)
  | error error => exact ensures_raise stages (.lambda found (.inr (.inr ⟨error, rfl⟩))) nofun

theorem ensures_interpolated {name : String} {escaped : Bool} {value : Value}
    (tag : v.node = .interpolation name escaped)
    (found : v.env.context.resolve? name = some value) :
    Ensures before after fails (interpolated setup deeper v.env name value) := by
  cases value with
  | lambda l =>
    refine .bind (ensures_invoke stages "" found) fun text => .capture ?_
    exact ensures_renderReturned stages hd "" text .standard (.inr ⟨escaped, tag⟩) found
  | list items =>
    exact ensures_waived stages (ensures_raise stages (.conversion tag found rfl) nofun)
  | map entries =>
    exact ensures_waived stages (ensures_raise stages (.conversion tag found rfl) nofun)
  | null | bool | int | float | str => exact ensures_waived stages (ensures_done stages _)

theorem ensures_visitInterpolation {name : String} {escaped : Bool}
    (tag : v.node = .interpolation name escaped) :
    Ensures before after fails (visitInterpolation setup deeper v.env name escaped) := by
  unfold visitInterpolation
  cases found : v.env.context.resolve? name with
  | none =>
    dsimp only
    split
    · rename_i strict
      exact ensures_waived stages (ensures_raise stages (.missing tag found strict) nofun)
    · exact ensures_waived stages (ensures_done stages ())
  | some value =>
    exact .bind (ensures_interpolated stages hd tag found) fun _ => .write _ fun _ _ h => h

theorem ensures_visitInverted {s : Section} (tag : v.node = .sect s) {shape : Shape}
    (lambda : shape = .renderable → ∃ l, v.env.context.resolve? s.name = some (.lambda l)) :
    Ensures asked after fails (visitInverted setup deeper v.env s shape) := by
  have children := ensures_below stages hd (.children tag)
  unfold visitInverted
  cases shape with
  | falsey => exact children
  | scalar | sequence => exact ensures_done stages ()
  | renderable =>
    obtain ⟨l, found⟩ := lambda rfl
    dsimp only
    split
    · exact ensures_raise stages (.lambda found (.inr (.inl rfl))) nofun
    · exact ensures_done stages ()
    · exact children

theorem ensures_visitUpright {s : Section} (tag : v.node = .sect s) {value : Value}
    (found : v.env.context.resolve? s.name = some value) :
    Ensures before after fails (visitUpright setup deeper v.env s value) := by
  have scalar : Ensures asked after fails (if value.shape = .falsey then Pure.pure ()
      else deeper (v.env.pushFrame value) s.children) := by
    split
    · exact ensures_done stages ()
    · exact ensures_below stages hd (.framed tag found (.inl rfl))
  cases value with
  | list items =>
    have each : ∀ item ∈ items, Ensures after after fails
        (deeper (v.env.pushFrame item) s.children) :=
      fun item mem => hd (.framed tag found (.inr ⟨items, rfl, mem⟩))
    exact (Ensures.forM each).of_imp fun _ _ h => stages.begun (stages.waived h)
  | lambda l =>
    refine .bind (ensures_invoke stages s.body.text found) fun text => ?_
    exact ensures_renderReturned stages hd v.env.indent text _ (.inl ⟨s, tag, rfl⟩) found
  | null | bool | int | float | str | map => exact ensures_waived stages scalar

theorem ensures_visitSection {s : Section} (tag : v.node = .sect s) :
    Ensures before after fails (visitSection setup deeper v.env s) := by
  unfold visitSection
  cases found : v.env.context.resolve? s.name with
  | none =>
    dsimp only
    split
    · exact ensures_waived stages (ensures_visitInverted stages hd tag nofun)
    · exact ensures_waived stages (ensures_done stages ())
  | some value =>
    dsimp only
    split
    · refine ensures_waived stages (ensures_visitInverted stages hd tag fun renderable => ?_)
      obtain ⟨l, rfl⟩ := Value.eq_lambda_of_shape renderable
      exact ⟨l, found⟩
    · exact ensures_visitUpright stages hd tag found

theorem ensures_visitInclusion {i : Inclusion} {inner : Overrides}
    (includes : v.node.Includes v.env.overrides i inner) :
    Ensures before after fails
      (visitInclusion setup deeper { v.env with overrides := inner } i) := by
  rw [visitInclusion_eq]
  refine .bind_of_ok (ensures_target stages includes) fun ran => ?_
  have target := target_of_ok ran
  unfold visitTemplate
  cases entered : v.env.path.enter i.name with
  | error error =>
    have cyclic := (InclusionPath.enter_eq_error entered).2
    exact ensures_raise stages
      (.fault (.cycle (List.mem_singleton_self _) includes target entered)) (by rw [cyclic]; nofun)
  | ok path =>
    have inside := ensures_below stages hd (.inclusion includes target entered)
    dsimp only
    split
    · rename_i flush
      have none : i.indent = "" := String.isEmpty_iff.1 flush
      simpa only [Env.inside, none, String.append_empty] using inside
    · exact .bind (.write _ fun _ _ h => h) fun _ => inside

/-- One case for each kind of node. -/
theorem ensures_handle : Ensures before after fails (handle setup deeper v.env v.node) := by
  cases tag : v.node with
  | text text => exact .write _ fun _ _ h => stages.begun (stages.waived h)
  | interpolation name escaped => exact ensures_visitInterpolation stages hd tag
  | sect s => exact ensures_visitSection stages hd tag
  | inclusion i => exact ensures_visitInclusion stages hd (tag ▸ .plain i)
  | parent i scope => exact ensures_visitInclusion stages hd (tag ▸ .parent i scope)
  | block b =>
    change Ensures before after fails (visitBlock deeper v.env b)
    rw [visitBlock_eq]
    exact ensures_waived stages (ensures_below stages hd (.content tag))

end Handlers

/-- What has to be known of a visit in order to know what its handler ensures: what holds before the
handler has gone down, what holds from then on, and what holds if it fails. -/
structure Contract (setup : Setup σ) (v : Visit) (before after : Asked σ)
    (fails : Error → Asked σ) : Prop where
  begun {requests : List Request} {host : σ} (h : before requests host) : after requests host
  called {requests : List Request} {host : σ} (h : before requests host) (l : Lambda)
    (argument : String) :
    before (.call l argument :: requests) (setup.host.invoke l argument host).2
  loaded {requests : List Request} {host : σ} {name : String} (h : before requests host)
    (asks : v.LooksUp name) : before (.load name :: requests) host
  raised {requests : List Request} {host : σ} {error : Error} (h : before requests host)
    (raises : v.Raises setup error) : fails error requests host

section Contract
variable {setup : Setup σ} {deeper : Deeper σ} {v : Visit} {before after : Asked σ}
  {fails : Error → Asked σ} (contract : Contract setup v before after fails)
include contract

/-- It makes no difference whether the handler has asked for something. -/
theorem Contract.stages : Stages setup v before before after fails where
  waived h := h
  called := contract.called
  loaded := contract.loaded
  begun := contract.begun
  raised h raises _ := contract.raised h raises

theorem ensures_checkCancelled : Ensures before before fails (checkCancelled setup) := by
  intro s hs
  rw [checkCancelled_apply]
  cases flag : setup.host.cancelled s.host with
  | true => exact contract.raised hs (.cancelled flag)
  | false => exact hs

theorem ensures_visit (hd : ∀ {env nodes}, v.Below setup.loader env nodes →
      Ensures after after fails (deeper env nodes)) :
    Ensures before after fails (visit setup deeper v.env v.node) := by
  rw [visit_eq]
  exact .bind (ensures_checkCancelled contract) fun _ => ensures_handle contract.stages hd

end Contract

/-- What every visit preserves a render preserves, by induction on the levels left. Of a visit inside
of others, with some levels left, it is known that it is `within`. -/
theorem ensures_noted {ν : Type} {setup : Setup σ} {notes : Notes σ ν} {inv : Asked (σ × ν)}
    {fails : Error → Asked (σ × ν)} (within : (room : Nat) → Visit → List Visit → Prop)
    (refused : ∀ requests host, inv requests host →
      fails (.depthExceeded setup.config.maxDepth) requests host)
    (inside : ∀ {room v around env nodes}, within (room + 1) v around →
      v.Below setup.loader env nodes → ∀ n ∈ nodes, within room ⟨env, n⟩ (v :: around))
    (visited : ∀ {room v around deeper}, within (room + 1) v around →
      (∀ {env nodes}, v.Below setup.loader env nodes →
        Ensures inv inv fails (deeper env nodes)) →
      Ensures inv inv fails
        (note notes v around >>= fun _ => visit (setup.noting ν) deeper v.env v.node))
    (room : Nat) {around : List Visit} {env : Env} {nodes : List Node}
    (here : ∀ n ∈ nodes, within room ⟨env, n⟩ around) :
    Ensures inv inv fails (noted setup notes room around env nodes) := by
  induction room generalizing around env nodes with
  | zero => exact .throw refused
  | succ room ih =>
    refine .forM fun n mem => ?_
    exact visited (here n mem) fun way => ih (inside (here n mem) way)

end Render
end Mustache
