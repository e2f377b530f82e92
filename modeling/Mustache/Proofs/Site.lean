import Mustache.Engine
import Mustache.Proofs.Frames
import Mustache.Proofs.Render.Steps

/-! The sites of a render: the nodes it may come to, with the path and the overrides in force there.
One relation says what lies one level below a site, for every choice the data could make. Where a
render fails, either the data made it fail, or a partial at one of these sites, or their depth. -/
namespace Mustache

/-- Nodes to be rendered, with the partials being rendered and the overrides in force. -/
structure Site where
  path : InclusionPath
  overrides : Overrides
  nodes : List Node

/-- The site of nodes in some surroundings. -/
def Env.site (env : Env) (nodes : List Node) : Site := ⟨env.path, env.overrides, nodes⟩

/-- The template of a partial: the one settled ahead of time, or else the one looked up. -/
def Loader.target? (loader : Loader) (i : Inclusion) : Option Template :=
  match i.target with
  | some template => some template
  | none => loader i.name

/-- A node includes a partial, with these overrides in force inside of it. -/
inductive Node.Includes (o : Overrides) : Node → Inclusion → Overrides → Prop
  | plain (i : Inclusion) : Includes o (.inclusion i) i o
  | parent (i : Inclusion) (scope : List Block) : Includes o (.parent i scope) i (o.push scope)

namespace Site

/-- One level down from a site. What a lambda returns takes the place of nodes, if lambdas may occur
at all. -/
inductive Below (loader : Loader) (lambdas : Prop) (site : Site) : Site → Prop
  | children {s : Section} (mem : .sect s ∈ site.nodes) :
    Below loader lambdas site { site with nodes := s.children }
  | returned {text : String} {d : Delimiters} {template : Template} (allowed : lambdas)
    (parsed : Template.parseWith d text = .ok template) :
    Below loader lambdas site { site with nodes := template.nodes }
  | default {b : Block} (mem : .block b ∈ site.nodes)
    (free : site.overrides.resolve? b.name = none) :
    Below loader lambdas site { site with nodes := b.children }
  | override {b override : Block} {enclosing : Overrides} (mem : .block b ∈ site.nodes)
    (found : site.overrides.resolve? b.name = some (override, enclosing)) :
    Below loader lambdas site ⟨site.path, enclosing, override.children⟩
  | inclusion {node : Node} {i : Inclusion} {inner : Overrides} {template : Template}
    {path : InclusionPath} (mem : node ∈ site.nodes)
    (includes : node.Includes site.overrides i inner)
    (target : loader.target? i = some template) (enter : site.path.enter i.name = .ok path) :
    Below loader lambdas site ⟨path, inner, template.nodes⟩

/-- A number of levels down from a site. -/
inductive Descends (loader : Loader) (lambdas : Prop) : Nat → Site → Site → Prop
  | here (site : Site) : Descends loader lambdas 0 site site
  | down {levels : Nat} {a b c : Site} (first : Below loader lambdas a b)
    (rest : Descends loader lambdas levels b c) : Descends loader lambdas (levels + 1) a c

theorem Descends.trans {loader : Loader} {lambdas : Prop} {k l : Nat} {a b c : Site}
    (upper : Descends loader lambdas k a b) (lower : Descends loader lambdas l b c) :
    Descends loader lambdas (k + l) a c := by
  induction upper with
  | here =>
    rw [Nat.zero_add]
    exact lower
  | down first rest ih =>
    rw [Nat.succ_add]
    exact .down first (ih lower)

/-- A partial at the site has no template, or is being rendered already. -/
inductive Fault (loader : Loader) (site : Site) : Error → Prop
  | missing {node : Node} {i : Inclusion} {inner : Overrides} (mem : node ∈ site.nodes)
    (includes : node.Includes site.overrides i inner) (target : loader.target? i = none) :
    Fault loader site (.partialNotFound i.name)
  | cycle {node : Node} {i : Inclusion} {inner : Overrides} {template : Template} {error : Error}
    (mem : node ∈ site.nodes) (includes : node.Includes site.overrides i inner)
    (target : loader.target? i = some template) (enter : site.path.enter i.name = .error error) :
    Fault loader site error

namespace Fault
variable {loader : Loader} {site : Site} {error : Error} {name : String} {path : List String}

/-- A fault is a partial that is not there, or one whose name is on the path of the site. -/
theorem error_eq (fault : site.Fault loader error) :
    (∃ name, error = .partialNotFound name) ∨
      ∃ name ∈ site.path.names, error = .inclusionCycle name (site.path.names ++ [name]) := by
  cases fault with
  | missing mem includes target => exact .inl ⟨_, rfl⟩
  | cycle mem includes target enter =>
    obtain ⟨entered, rfl⟩ := InclusionPath.enter_eq_error enter
    exact .inr ⟨_, entered, rfl⟩

theorem target_of_missing (fault : site.Fault loader (.partialNotFound name)) :
    ∃ node i inner, node ∈ site.nodes ∧ node.Includes site.overrides i inner ∧
      loader.target? i = none := by
  generalize raised : Error.partialNotFound name = error at fault
  cases fault with
  | missing mem includes target => exact ⟨_, _, _, mem, includes, target⟩
  | cycle mem includes target enter =>
    obtain ⟨-, rfl⟩ := InclusionPath.enter_eq_error enter
    cases raised

theorem enter_of_cycle (fault : site.Fault loader (.inclusionCycle name path)) :
    ∃ node i inner, node ∈ site.nodes ∧ node.Includes site.overrides i inner ∧
      site.path.enter i.name = .error (.inclusionCycle name path) := by
  generalize raised : Error.inclusionCycle name path = error at fault
  cases fault with
  | missing => cases raised
  | cycle mem includes target enter => exact ⟨_, _, _, mem, includes, enter⟩

end Fault

end Site

variable {σ : Type}

/-- An error that a single node raises on account of the values it meets and of the host. -/
def Setup.Refuses (setup : Setup σ) (p : Value → Prop) : Error → Prop
  | .conversion _ found => ∃ value, p value ∧ value.kind = found ∧ value.text? = none
  | .missingVariable _ => setup.config.strictVariables = true
  | .cancelled => ∃ state, setup.host.cancelled state = true
  | .lambdaFailed _ _ | .invertedLambda _ | .parse _ => ∃ l, p (.lambda l)
  | .templateExists _ | .missingTemplate _ | .partialNotFound _ | .inclusionCycle _ _
  | .depthExceeded _ | .duplicateBlock _ => False

/-- Why a render that has `room` levels left at a site fails. -/
inductive Site.Cause (setup : Setup σ) (p : Value → Prop) (lambdas : Prop) (room : Nat)
    (start : Site) : Error → Prop
  | data {error : Error} (refused : setup.Refuses p error) : Cause setup p lambdas room start error
  | site {error : Error} {levels : Nat} {site : Site} (within : levels ≤ room)
    (way : Site.Descends setup.loader lambdas levels start site)
    (fault : site.Fault setup.loader error) : Cause setup p lambdas room start error
  | depth {site : Site} (way : Site.Descends setup.loader lambdas (room + 1) start site) :
    Cause setup p lambdas room start (.depthExceeded setup.config.maxDepth)

namespace Render

/-- Where the failure of a node comes from: the data, the site, or a site one level below. -/
inductive Origin (setup : Setup σ) (p : Value → Prop) (lambdas : Prop) (deeper : Deeper σ)
    (site : Site) (error : Error) : Prop
  | data (refused : setup.Refuses p error)
  | fault (fault : site.Fault setup.loader error)
  | below (env : Env) {nodes : List Node} {s after : RenderState σ}
    (way : Site.Below setup.loader lambdas site (env.site nodes)) (frames : env.context.All p)
    (failed : deeper env nodes s = .error error after)

section Origins
variable {setup : Setup σ} {p : Value → Prop} {lambdas : Prop} {deeper : Deeper σ} {env : Env}
  {nodes : List Node} {s after : RenderState σ} {error : Error}

theorem refuses_of_invoke {name : String} {l : Lambda} {argument : String} (hl : p (.lambda l))
    (h : invoke setup name l argument s = .error error after) : setup.Refuses p error := by
  simp only [invoke] at h
  cases hr : (setup.host.invoke l argument s.host).1 with
  | ok text =>
    rw [hr] at h
    cases h
  | error message =>
    rw [hr] at h
    obtain ⟨rfl, -⟩ := EStateM.Result.error.inj h
    exact ⟨l, hl⟩

theorem error_of_capture {step : RenderM σ Unit} (h : capture step s = .error error after) :
    ∃ start inner, step start = .error error inner := by
  simp only [capture] at h
  split at h
  · cases h
  · rename_i inner failed
    obtain ⟨rfl, -⟩ := EStateM.Result.error.inj h
    exact ⟨_, _, failed⟩

theorem loader_of_load {name : String} {template : Template} {mid : RenderState σ}
    (h : load setup name s = .ok template mid) : setup.loader name = some template := by
  simp only [load] at h
  cases found : setup.loader name with
  | some t =>
    rw [found] at h
    obtain ⟨rfl, -⟩ := EStateM.Result.ok.inj h
    rfl
  | none =>
    rw [found] at h
    cases h

theorem target_of_ok {i : Inclusion} {template : Template} {mid : RenderState σ}
    (h : target setup i s = .ok template mid) : setup.loader.target? i = some template := by
  unfold target at h
  unfold Loader.target?
  cases ht : i.target with
  | some settled =>
    rw [ht] at h
    obtain ⟨rfl, -⟩ := EStateM.Result.ok.inj h
    rfl
  | none =>
    rw [ht] at h
    exact loader_of_load h

theorem target_of_error {i : Inclusion} (h : target setup i s = .error error after) :
    setup.loader.target? i = none ∧ error = .partialNotFound i.name := by
  unfold target at h
  unfold Loader.target?
  cases ht : i.target with
  | some settled =>
    rw [ht] at h
    cases h
  | none =>
    rw [ht] at h
    simp only [load] at h
    cases hl : setup.loader i.name with
    | some found =>
      rw [hl] at h
      cases h
    | none =>
      rw [hl] at h
      obtain ⟨rfl, -⟩ := EStateM.Result.error.inj h
      exact ⟨rfl, rfl⟩

theorem origin_of_visitInverted {t : Section} {shape : Shape} (mem : .sect t ∈ nodes)
    (frames : env.context.All p) (ht : shape = .renderable → ∃ l, p (.lambda l))
    (h : visitInverted setup deeper env t shape s = .error error after) :
    Origin setup p lambdas deeper (env.site nodes) error := by
  have children (h : deeper env t.children s = .error error after) :
      Origin setup p lambdas deeper (env.site nodes) error :=
    .below env (Site.Below.children mem) frames h
  cases shape with
  | falsey => exact children h
  | scalar | sequence => cases h
  | renderable =>
    unfold visitInverted at h
    cases policy : setup.config.invertedLambda with
    | reject =>
      simp only [policy] at h
      obtain ⟨rfl, -⟩ := EStateM.Result.error.inj h
      exact .data (ht rfl)
    | truthy =>
      simp only [policy] at h
      cases h
    | falsey =>
      simp only [policy] at h
      exact children h

theorem origin_of_visitInclusion {node : Node} {i : Inclusion} {o : Overrides} (env : Env)
    (mem : node ∈ nodes) (includes : node.Includes o i env.overrides) (frames : env.context.All p)
    (h : visitInclusion setup deeper env i s = .error error after) :
    Origin setup p lambdas deeper ⟨env.path, o, nodes⟩ error := by
  rw [visitInclusion_eq] at h
  rcases bind_eq_error h with absent | ⟨template, mid, found, entered⟩
  · obtain ⟨ht, rfl⟩ := target_of_error absent
    exact .fault (.missing mem includes ht)
  · have ht := target_of_ok found
    unfold visitTemplate at entered
    cases he : env.path.enter i.name with
    | error e =>
      rw [he] at entered
      obtain ⟨rfl, -⟩ := EStateM.Result.error.inj entered
      exact .fault (.cycle mem includes ht he)
    | ok path =>
      have way : Site.Below setup.loader lambdas ⟨env.path, o, nodes⟩
          ⟨path, env.overrides, template.nodes⟩ := .inclusion mem includes ht he
      simp only [he] at entered
      split at entered
      · exact .below { env with path } way frames entered
      · rcases bind_eq_error entered with wrote | ⟨_, line, -, failed⟩
        · cases wrote
        · exact .below { env with path, indent := env.indent ++ i.indent } way frames failed

theorem origin_of_visitBlock {b : Block} (mem : .block b ∈ nodes) (frames : env.context.All p)
    (h : visitBlock deeper env b s = .error error after) :
    Origin setup p lambdas deeper (env.site nodes) error := by
  unfold visitBlock at h
  cases hr : env.overrides.resolve? b.name with
  | none =>
    simp only [hr] at h
    exact .below env (Site.Below.default mem hr) frames h
  | some found =>
    obtain ⟨override, enclosing⟩ := found
    simp only [hr] at h
    exact .below { env with overrides := enclosing } (Site.Below.override mem hr) frames h

variable (closed : Value.Closed p lambdas)
include closed

theorem origin_of_renderReturned (env : Env) {text : String} {d : Delimiters} {l : Lambda}
    (hl : p (.lambda l)) (frames : env.context.All p)
    (h : renderReturned deeper env text d s = .error error after) :
    Origin setup p lambdas deeper (env.site nodes) error := by
  unfold renderReturned at h
  cases parsed : Template.parseWith d text with
  | ok template =>
    rw [parsed] at h
    exact .below env (Site.Below.returned (closed.lambda hl) parsed) frames h
  | error e =>
    rw [parsed] at h
    obtain ⟨rfl, -⟩ := EStateM.Result.error.inj h
    exact .data ⟨l, hl⟩

theorem origin_of_interpolated {name : String} {value : Value} (frames : env.context.All p)
    (hr : env.context.resolve? name = some value)
    (h : interpolated setup deeper env name value s = .error error after) :
    Origin setup p lambdas deeper (env.site nodes) error := by
  have resolved : p value := frames.resolve? closed hr
  have conversion (textless : value.text? = none)
      (h : (throw (.conversion name value.kind) : RenderM σ String) s = .error error after) :
      Origin setup p lambdas deeper (env.site nodes) error := by
    obtain ⟨rfl, -⟩ := EStateM.Result.error.inj h
    exact .data ⟨value, resolved, rfl, textless⟩
  cases value with
  | lambda l =>
    rcases bind_eq_error h with called | ⟨returned, mid, -, captured⟩
    · exact .data (refuses_of_invoke resolved called)
    · obtain ⟨start, inner, failed⟩ := error_of_capture captured
      exact origin_of_renderReturned closed { env with indent := "" } resolved frames failed
  | list items => exact conversion rfl h
  | map entries => exact conversion rfl h
  | null | bool | int | float | str => cases h

theorem origin_of_visitInterpolation {name : String} {escaped : Bool} (frames : env.context.All p)
    (h : visitInterpolation setup deeper env name escaped s = .error error after) :
    Origin setup p lambdas deeper (env.site nodes) error := by
  unfold visitInterpolation at h
  cases hr : env.context.resolve? name with
  | none =>
    simp only [hr] at h
    split at h
    · rename_i strict
      obtain ⟨rfl, -⟩ := EStateM.Result.error.inj h
      exact .data strict
    · cases h
  | some value =>
    simp only [hr] at h
    rcases bind_eq_error h with failed | ⟨text, mid, -, wrote⟩
    · exact origin_of_interpolated closed frames hr failed
    · cases wrote

theorem origin_of_visitUpright {t : Section} {value : Value} (mem : .sect t ∈ nodes)
    (frames : env.context.All p) (hr : env.context.resolve? t.name = some value)
    (h : visitUpright setup deeper env t value s = .error error after) :
    Origin setup p lambdas deeper (env.site nodes) error := by
  have resolved : p value := frames.resolve? closed hr
  have framed (frame : Value) (hf : p frame) {mid : RenderState σ}
      (h : deeper (env.pushFrame frame) t.children mid = .error error after) :
      Origin setup p lambdas deeper (env.site nodes) error :=
    .below (env.pushFrame frame) (Site.Below.children mem) (frames.push hf) h
  have scalar (h : (if value.shape = .falsey then pure ()
      else deeper (env.pushFrame value) t.children) s = .error error after) :
      Origin setup p lambdas deeper (env.site nodes) error := by
    split at h
    · cases h
    · exact framed value resolved h
  cases value with
  | list items =>
    obtain ⟨item, hi, mid, failed⟩ := forM_eq_error h
    exact framed item (closed.item resolved hi) failed
  | lambda l =>
    rcases bind_eq_error h with called | ⟨returned, mid, -, failed⟩
    · exact .data (refuses_of_invoke resolved called)
    · exact origin_of_renderReturned closed env resolved frames failed
  | null | bool | int | float | str | map => exact scalar h

theorem origin_of_visitSection {t : Section} (mem : .sect t ∈ nodes) (frames : env.context.All p)
    (h : visitSection setup deeper env t s = .error error after) :
    Origin setup p lambdas deeper (env.site nodes) error := by
  unfold visitSection at h
  cases hr : env.context.resolve? t.name with
  | none =>
    simp only [hr] at h
    split at h
    · refine origin_of_visitInverted mem frames (fun renderable => ?_) h
      cases renderable
    · cases h
  | some value =>
    simp only [hr] at h
    split at h
    · refine origin_of_visitInverted mem frames (fun renderable => ?_) h
      obtain ⟨l, rfl⟩ := Value.eq_lambda_of_shape renderable
      exact ⟨l, frames.resolve? closed hr⟩
    · exact origin_of_visitUpright closed mem frames hr h

theorem origin_of_visit {node : Node} (mem : node ∈ nodes) (frames : env.context.All p)
    (h : visit setup deeper env node s = .error error after) :
    Origin setup p lambdas deeper (env.site nodes) error := by
  rcases visit_eq_error h with ⟨rfl, raised, -⟩ | handled
  · exact .data ⟨s.host, raised⟩
  · cases node with
    | text text => cases handled
    | interpolation name escaped => exact origin_of_visitInterpolation closed frames handled
    | sect t => exact origin_of_visitSection closed mem frames handled
    | inclusion i =>
      exact origin_of_visitInclusion env mem (.plain i) frames handled
    | parent i scope =>
      exact origin_of_visitInclusion { env with overrides := env.overrides.push scope } mem
        (.parent i scope) frames handled
    | block b => exact origin_of_visitBlock mem frames handled

end Origins

/-- By induction on the levels left: each level that is gone down makes the way longer by one. -/
theorem cause_of_visitAll {setup : Setup σ} {p : Value → Prop} {lambdas : Prop} {room : Nat}
    {env : Env} {nodes : List Node} {s after : RenderState σ} {error : Error}
    (closed : Value.Closed p lambdas) (frames : env.context.All p)
    (h : visitAll setup room env nodes s = .error error after) :
    Site.Cause setup p lambdas room (env.site nodes) error := by
  induction room generalizing env nodes s after with
  | zero =>
    obtain ⟨node, mem, mid, failed⟩ := forM_eq_error h
    rcases origin_of_visit closed mem frames failed with
      refused | fault | ⟨env', way, frames', failed'⟩
    · exact .data refused
    · exact .site (Nat.le_refl _) (.here _) fault
    · obtain ⟨rfl, -⟩ := EStateM.Result.error.inj failed'
      exact .depth (.down way (.here _))
  | succ room ih =>
    obtain ⟨node, mem, mid, failed⟩ := forM_eq_error h
    rcases origin_of_visit closed mem frames failed with
      refused | fault | ⟨env', way, frames', failed'⟩
    · exact .data refused
    · exact .site (Nat.zero_le _) (.here _) fault
    · rcases ih frames' failed' with refused | ⟨within, rest, fault⟩ | rest
      · exact .data refused
      · exact .site (Nat.succ_le_succ within) (.down way rest) fault
      · exact .depth (.down way rest)

end Render

theorem Renderer.run_eq_error {r : Renderer σ} {nodes : List Node} {error : Error}
    (h : (r.run nodes).result = .error error) :
    ∃ after, Render.visitAll r.setup r.room r.env nodes r.state = .error error after := by
  simp only [run, accept] at h
  cases hv : Render.visitAll r.setup r.room r.env nodes r.state with
  | ok _ after =>
    rw [hv] at h
    cases h
  | error e after =>
    rw [hv] at h
    obtain rfl := Except.error.inj h
    exact ⟨after, rfl⟩

theorem Renderer.run_eq_ok {r : Renderer σ} {nodes : List Node} {text : String}
    (h : (r.run nodes).result = .ok text) :
    ∃ after, Render.visitAll r.setup r.room r.env nodes r.state = .ok () after ∧
      after.output = text := by
  simp only [run, accept] at h
  cases hv : Render.visitAll r.setup r.room r.env nodes r.state with
  | ok _ after =>
    rw [hv] at h
    exact ⟨after, rfl, Except.ok.inj h⟩
  | error e after =>
    rw [hv] at h
    cases h

section Runs
variable {p : Value → Prop} {lambdas : Prop} {host : Host σ} {data : Value} {state : σ}
  {error : Error}

/-- Where the render of a template begins. -/
def Template.site (t : Template) : Site :=
  ⟨(t.name.map InclusionPath.rooted).getD .empty, .empty, t.nodes⟩

theorem Template.cause_of_render {t : Template} {setup : Setup σ}
    (closed : Value.Closed p lambdas) (root : p data)
    (h : (t.render setup data state).result = .error error) :
    Site.Cause setup p lambdas setup.config.maxDepth t.site error := by
  unfold Template.render at h
  unfold Template.site
  cases named : t.name with
  | none =>
    simp only [named] at h
    obtain ⟨after, failed⟩ := Renderer.run_eq_error h
    exact Render.cause_of_visitAll closed (Context.All.ofRoot root) failed
  | some name =>
    simp only [named] at h
    obtain ⟨after, failed⟩ := Renderer.run_eq_error h
    have cause := Render.cause_of_visitAll closed (Context.All.ofRoot root) failed
    exact cause

/-- Where the render of a registered template begins. -/
def Engine.site (name : String) (t : Template) : Site := ⟨.rooted name, .empty, t.nodes⟩

theorem Engine.cause_of_render {e : Engine} {name : String} {t : Template}
    (found : e.get? name = some t) (closed : Value.Closed p lambdas) (root : p data)
    (h : (e.render host name data state).result = .error error) :
    Site.Cause (e.setup host) p lambdas e.config.maxDepth (site name t) error := by
  unfold Engine.render at h
  rw [found] at h
  obtain ⟨after, failed⟩ := Renderer.run_eq_error h
  have cause := Render.cause_of_visitAll closed (Context.All.ofRoot root) failed
  exact cause

end Runs

end Mustache
