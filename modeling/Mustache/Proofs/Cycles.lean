import Mustache.Proofs.Render.Visited
import Mustache.Proofs.Render.Beside
import Mustache.Proofs.Valid

/-! Cycles of partials. The path that is reported with a cycle ends where it comes back to itself: it
holds the last name before, and no other name twice. Along it each partial stands in the template that
the one before has led to, as long as nothing is rendered that stands elsewhere, the content of an
override or what a lambda has returned. -/
namespace Mustache

/-- The partial that a node includes, with overrides or without. -/
def Node.inclusion? : Node → Option Inclusion
  | .inclusion i | .parent i _ => some i
  | .text _ | .interpolation _ _ | .sect _ | .block _ => none

theorem Node.Includes.inclusion? {o inner : Overrides} {n : Node} {i : Inclusion}
    (h : n.Includes o i inner) : n.inclusion? = some i := by
  cases h <;> rfl

/-- A path that has closed with a name. It begins with the root, if there is one. -/
structure InclusionPath.Closes (root : Option String) (name : String) (path : List String) :
    Prop where
  last : path.getLast? = some name
  again : name ∈ path.dropLast
  distinct : path.dropLast.Nodup
  first {r : String} (given : root = some r) : path.head? = some r

/-- Names of partials from nodes at the root on, each of which stands in the template that the one
before it leads to; and the nodes of the template entered last. -/
inductive Loader.LeadsTo (loader : Loader) (root : List Node) : List String → List Node → Prop
  | root : LeadsTo loader root [] root
  | into {names : List String} {nodes : List Node} {n : Node} {i : Inclusion} {t : Template}
    (outer : LeadsTo loader root names nodes) (occurs : Node.Occurs nodes n)
    (includes : n.inclusion? = some i) (target : loader.target? i = some t) :
    LeadsTo loader root (names ++ [i.name]) t.nodes

/-- A path along partials, behind the root if there is one. -/
def Loader.Along (loader : Loader) (root : Option String) (top : List Node) (path : List String) :
    Prop :=
  ∃ entered inner, path = root.toList ++ entered ∧ loader.LeadsTo top entered inner

/-- The names that a root puts on the path. -/
theorem InclusionPath.names_ofRoot (root : Option String) :
    ((root.map rooted).getD empty).names = root.toList := by
  cases root <;> rfl

theorem InclusionPath.nodup_ofRoot (root : Option String) :
    ((root.map rooted).getD empty).names.Nodup := by
  cases root <;> simp [rooted, empty]

section Closing
variable {loader : Loader} {root : Option String} {top nodes : List Node} {p q : InclusionPath}
  {name : String} {path entered : List String}

theorem InclusionPath.closes_of_enter (names : p.names = root.toList ++ entered)
    (distinct : p.names.Nodup) {new : String} (h : p.enter new = .error (.inclusionCycle name path)) :
    Closes root name path := by
  obtain ⟨mem, error⟩ := enter_eq_error h
  obtain ⟨rfl, rfl⟩ := Error.inclusionCycle.inj error
  refine ⟨by simp, by simpa using mem, by simpa using distinct, fun given => ?_⟩
  rw [names, given]
  rfl

/-- Nodes of the template that has been entered last along a path, or of the one at the root. -/
def Loader.Follows (loader : Loader) (root : Option String) (top : List Node) (p : InclusionPath)
    (nodes : List Node) : Prop :=
  ∃ entered inner, p.names = root.toList ++ entered ∧ p.names.Nodup ∧
    loader.LeadsTo top entered inner ∧ ∀ n ∈ nodes, Node.Occurs inner n

namespace Loader.Follows

theorem of_root (root : Option String) (nodes : List Node) :
    loader.Follows root nodes ((root.map .rooted).getD .empty) nodes := by
  refine ⟨[], nodes, ?_, InclusionPath.nodup_ofRoot root, .root, fun n mem => .top mem⟩
  rw [InclusionPath.names_ofRoot, List.append_nil]

theorem mono {inner : List Node} (h : loader.Follows root top p nodes)
    (within : ∀ n ∈ inner, Node.Occurs nodes n) : loader.Follows root top p inner := by
  obtain ⟨entered, last, names, distinct, leads, occurs⟩ := h
  exact ⟨entered, last, names, distinct, leads, fun n mem => (within n mem).trans occurs⟩

theorem single {n : Node} (h : loader.Follows root top p nodes) (mem : n ∈ nodes) :
    loader.Follows root top p [n] := h.mono fun _ same => List.mem_singleton.1 same ▸ .top mem

theorem parts {n : Node} (h : loader.Follows root top p nodes) (mem : n ∈ nodes) :
    loader.Follows root top p n.parts := h.mono fun _ inner => .part (.top mem) inner

theorem enter {n : Node} {i : Inclusion} {t : Template} (h : loader.Follows root top p nodes)
    (mem : n ∈ nodes) (includes : n.inclusion? = some i) (target : loader.target? i = some t)
    (entered : p.enter i.name = .ok q) : loader.Follows root top q t.nodes := by
  obtain ⟨before, last, names, distinct, leads, occurs⟩ := h
  obtain ⟨-, new⟩ := InclusionPath.enter_eq_ok entered
  refine ⟨before ++ [i.name], t.nodes, ?_, InclusionPath.nodup_of_enter entered distinct,
    leads.into (occurs n mem) includes target, fun _ => .top⟩
  rw [new, names, List.append_assoc]

/-- Where the next partial closes a cycle. -/
theorem closes {n : Node} {i : Inclusion} {t : Template} (h : loader.Follows root top p nodes)
    (mem : n ∈ nodes) (includes : n.inclusion? = some i) (target : loader.target? i = some t)
    (closed : p.enter i.name = .error (.inclusionCycle name path)) :
    InclusionPath.Closes root name path ∧ loader.Along root top path := by
  obtain ⟨before, last, names, distinct, leads, occurs⟩ := h
  refine ⟨InclusionPath.closes_of_enter names distinct closed, before ++ [i.name], t.nodes, ?_,
    leads.into (occurs n mem) includes target⟩
  obtain ⟨-, error⟩ := InclusionPath.enter_eq_error closed
  obtain ⟨-, rfl⟩ := Error.inclusionCycle.inj error
  rw [names, List.append_assoc]

end Loader.Follows

end Closing

section Rendering
variable {loader : Loader} {top : Env} {nodes : List Node} {v : Visit} {around : List Visit}

/-- On the way down names are put on the path, each at most once. -/
theorem Nested.path (h : Nested loader top nodes v around) :
    (∃ entered, v.env.path.names = top.path.names ++ entered) ∧
      (top.path.names.Nodup → v.env.path.names.Nodup) := by
  induction h with
  | outermost mem => exact ⟨⟨[], (List.append_nil _).symm⟩, id⟩
  | inside outer way mem ih =>
    cases way with
    | children tag | framed tag | returned tag | content tag => exact ih
    | @inclusion i inner path t includes target entered =>
      obtain ⟨⟨before, names⟩, distinct⟩ := ih
      obtain ⟨-, new⟩ := InclusionPath.enter_eq_ok entered
      refine ⟨⟨before ++ [i.name], ?_⟩, fun top => InclusionPath.nodup_of_enter entered (distinct top)⟩
      change path.names = _
      rw [new, names, List.append_assoc]

/-- The visit of a node that has no overrides, and does not name a lambda. -/
def Visit.plain (v : Visit) : Bool :=
  match v.node with
  | .parent _ _ => false
  | .sect s => (v.env.context.resolve? s.name).map Value.kind ≠ some .lambda
  | .interpolation name _ => (v.env.context.resolve? name).map Value.kind ≠ some .lambda
  | .text _ | .inclusion _ | .block _ => true

theorem Visit.not_plain_of_lambda {name : String} {l : Lambda}
    (tag : (∃ s, v.node = .sect s ∧ s.name = name) ∨ ∃ escaped, v.node = .interpolation name escaped)
    (found : v.env.context.resolve? name = some (.lambda l)) : v.plain = false := by
  unfold plain
  obtain ⟨s, tag, rfl⟩ | ⟨escaped, tag⟩ := tag <;>
    · rw [tag]
      simp [found, Value.kind]

theorem Visit.overrides_of_plain (plain : v.plain) {o inner : Overrides} {i : Inclusion}
    (includes : v.node.Includes o i inner) : inner = o := by
  unfold Visit.plain at plain
  generalize v.node = n at plain includes
  cases includes with
  | plain => rfl
  | parent => cases plain

/-- Inside of plain visits there are no overrides, and every node stands in the template entered last. -/
theorem Nested.follows {root : Option String} (h : Nested loader top nodes v around)
    (start : top.overrides = .empty ∧ loader.Follows root nodes top.path nodes)
    (plain : ∀ w ∈ around, w.plain) :
    v.env.overrides = .empty ∧ loader.Follows root nodes v.env.path [v.node] := by
  induction h with
  | outermost mem =>
    exact ⟨start.1, start.2.single mem⟩
  | @inside v around env inner n outer way mem ih =>
    obtain ⟨none, here⟩ := ih fun w further => plain w (List.mem_cons_of_mem _ further)
    have plain := plain v List.mem_cons_self
    have parts := here.parts (List.mem_singleton_self _)
    cases way with
    | @children s tag | @framed s value frame tag found part =>
      rw [tag] at parts
      exact ⟨none, parts.single mem⟩
    | returned tag found parsed =>
      rw [Visit.not_plain_of_lambda tag found] at plain
      cases plain
    | @content b tag =>
      have default : v.env.overrides.content b = (b, .empty) := by rw [none]; rfl
      rw [tag] at parts
      rw [default] at mem
      exact ⟨by rw [Env.atContent, default], parts.single mem⟩
    | @inclusion i scopes path t includes target entered =>
      have inside := here.enter (List.mem_singleton_self _) includes.inclusion? target entered
      exact ⟨(Visit.overrides_of_plain plain includes).trans none, inside.single mem⟩

section Supplied
variable (unfilled : ∀ i scope, ¬ loader.Supplies nodes (.parent i scope))
include unfilled

theorem Visit.plain_of_supplied (surroundings : v.env.Supplied loader nodes Value.LambdaFree)
    (supplied : loader.Supplies nodes v.node) : v.plain := by
  have named (name : String) : (v.env.context.resolve? name).map Value.kind ≠ some .lambda := by
    intro lambda
    obtain ⟨value, found, kind⟩ := Option.map_eq_some_iff.1 lambda
    have free := surroundings.context.resolve? Value.closed_lambdaFree found
    cases value with
    | lambda l => exact Value.closed_lambdaFree.lambda free
    | null | bool | int | float | str | list | map => cases kind
  unfold plain
  split
  · rename_i i scope tag
    exact absurd (tag ▸ supplied) (unfilled i scope)
  · exact decide_eq_true (named _)
  · exact decide_eq_true (named _)
  · rfl
  · rfl
  · rfl

/-- One level down the nodes are supplied again, and the data have no lambdas either. -/
theorem Visit.Below.supplied {env : Env} {inner : List Node} (way : v.Below loader env inner)
    (surroundings : v.env.Supplied loader nodes Value.LambdaFree)
    (supplied : loader.Supplies nodes v.node) :
    env.Supplied loader nodes Value.LambdaFree ∧ ∀ n ∈ inner, loader.Supplies nodes n := by
  have resolved {name : String} {value : Value}
      (found : v.env.context.resolve? name = some value) : value.LambdaFree :=
    surroundings.context.resolve? Value.closed_lambdaFree found
  cases way with
  | children tag =>
    rw [tag] at supplied
    exact ⟨surroundings, fun n mem => .part supplied mem⟩
  | @framed s value frame tag found part =>
    rw [tag] at supplied
    refine ⟨surroundings.pushFrame ?_, fun n mem => .part supplied mem⟩
    obtain rfl | ⟨items, rfl, mem⟩ := part
    · exact resolved found
    · exact Value.closed_lambdaFree.item (resolved found) mem
  | returned tag found parsed => exact (Value.closed_lambdaFree.lambda (resolved found)).elim
  | content tag =>
    rw [tag] at supplied
    exact surroundings.atContent supplied
  | inclusion includes target entered =>
    generalize v.node = n at supplied includes
    cases includes with
    | plain =>
      exact ⟨⟨surroundings.context, surroundings.overrides⟩, fun _ => .body supplied target⟩
    | parent => exact absurd supplied (unfilled _ _)

/-- Without overrides in the templates and without lambdas in the data, all visits are plain. -/
theorem Nested.plain (h : Nested loader top nodes v around)
    (start : top.Supplied loader nodes Value.LambdaFree) :
    (v.env.Supplied loader nodes Value.LambdaFree ∧ loader.Supplies nodes v.node) ∧
      ∀ w ∈ around, w.plain := by
  induction h with
  | outermost mem => exact ⟨⟨start, .root mem⟩, nofun⟩
  | inside outer way mem ih =>
    obtain ⟨⟨surroundings, supplied⟩, plain⟩ := ih
    obtain ⟨further, inner⟩ := way.supplied unfilled surroundings supplied
    exact ⟨⟨further, inner _ mem⟩,
      List.forall_mem_cons.2 ⟨Visit.plain_of_supplied unfilled surroundings supplied, plain⟩⟩

end Supplied

theorem Visit.Raises.cycle {σ : Type} {setup : Setup σ} {name : String} {path : List String}
    (h : v.Raises setup (.inclusionCycle name path)) : ∃ i t, v.node.inclusion? = some i ∧
      setup.loader.target? i = some t ∧ v.env.path.enter i.name = .error (.inclusionCycle name path) := by
  generalize raised : Error.inclusionCycle name path = error at h
  cases h with
  | cancelled | missing | conversion => cases raised
  | lambda found about =>
    obtain ⟨message, rfl⟩ | rfl | ⟨e, rfl⟩ := about <;> cases raised
  | fault fault =>
    cases fault with
    | missing => cases raised
    | @cycle node i inner t error mem includes target enter =>
      obtain rfl := List.mem_singleton.1 mem
      exact ⟨i, t, includes.inclusion?, target, enter⟩

end Rendering

namespace Renderer
variable {σ : Type}

/-- The visits that the one lies inside of which was made last, from the inside out. -/
def around (r : Renderer σ) (nodes : List Node) : List Visit := ((r.journal nodes).headD []).tail

theorem env_accept (r : Renderer σ) (nodes : List Node) : (r.accept nodes).2.env = r.env := by
  unfold accept
  split <;> rfl

theorem env_acceptEach (r : Renderer σ) (templates : List Template) :
    (r.acceptEach templates).env = r.env := by
  induction templates generalizing r with
  | nil => rfl
  | cons t rest ih => exact (ih (r.accept t.nodes).2).trans (r.env_accept t.nodes)

/-- A render that fails with a cycle has failed at a partial of the visit made last. -/
theorem closes_of_accept {r : Renderer σ} {nodes : List Node} {root : Option String} {name : String}
    {path : List String} (start : r.env.path = (root.map .rooted).getD .empty)
    (none : r.env.overrides = .empty)
    (h : (r.accept nodes).1 = .error (.inclusionCycle name path)) :
    InclusionPath.Closes root name path ∧
      ((∀ v ∈ r.around nodes, v.plain) → r.setup.loader.Along root nodes path) := by
  obtain ⟨accounts, fails⟩ := r.accounts_journal nodes
  obtain deep | ⟨v, around, earlier, last, raises⟩ := fails _ h
  · cases deep
  · have nested := accounts.nested (last ▸ List.mem_cons_self)
    obtain ⟨i, t, includes, target, closed⟩ := raises.cycle
    obtain ⟨⟨entered, names⟩, distinct⟩ := nested.path
    have start_distinct : r.env.path.names.Nodup := start ▸ InclusionPath.nodup_ofRoot root
    rw [start, InclusionPath.names_ofRoot] at names
    refine ⟨InclusionPath.closes_of_enter names (distinct start_distinct) closed, fun plain => ?_⟩
    have plain : ∀ w ∈ around, w.plain := by
      unfold Renderer.around at plain
      rw [last] at plain
      exact plain
    have follows : r.setup.loader.Follows root nodes r.env.path nodes := start ▸ .of_root root nodes
    have here := (nested.follows ⟨none, follows⟩ plain).2
    exact (here.closes (List.mem_singleton_self _) includes target closed).2

theorem plain_around {r : Renderer σ} {nodes : List Node}
    (start : r.env.Supplied r.setup.loader nodes Value.LambdaFree)
    (unfilled : ∀ i scope, ¬ r.setup.loader.Supplies nodes (.parent i scope)) :
    ∀ v ∈ r.around nodes, v.plain := by
  obtain ⟨accounts, -⟩ := r.accounts_journal nodes
  unfold Renderer.around
  cases written : r.journal nodes with
  | nil => nofun
  | cons last earlier =>
    cases last with
    | nil => nofun
    | cons v around =>
      have nested := accounts.nested (written ▸ List.mem_cons_self)
      exact (nested.plain unfilled start).2

end Renderer

namespace Validation
variable {loader : Loader} {limit : Nat} {root : Option String} {top nodes : List Node}
  {p : InclusionPath} {n : Node} {name : String} {path loads loads' : List String}

/-- A cycle that is found from a path on has closed, and each partial on it stands in the template that
the one before leads to. -/
def Deeper.Traces (deeper : Deeper) (loader : Loader) (root : Option String) (top : List Node) : Prop :=
  ∀ p nodes name path loads loads', loader.Follows root top p nodes →
    deeper p nodes loads = .error (.inclusionCycle name path) loads' →
      InclusionPath.Closes root name path ∧ loader.Along root top path

section Handlers
variable {deeper : Deeper} (below : deeper.Traces loader root top)
  (follows : loader.Follows root top p nodes)
include below follows

theorem traces_visitInclusion {i : Inclusion} (mem : n ∈ nodes) (includes : n.inclusion? = some i)
    (h : visitInclusion loader deeper p i loads = .error (.inclusionCycle name path) loads') :
    InclusionPath.Closes root name path ∧ loader.Along root top path := by
  rw [visitInclusion_eq] at h
  obtain ⟨after, found⟩ := target_eq loader i loads
  cases target : loader.target? i with
  | none =>
    rw [target] at found
    rw [Render.bind_apply, found] at h
    cases h
  | some t =>
    rw [target] at found
    rw [Render.bind_apply, found] at h
    change visitTemplate deeper p i t after = _ at h
    unfold visitTemplate at h
    cases entered : p.enter i.name with
    | error error =>
      rw [entered] at h
      obtain ⟨rfl, -⟩ := EStateM.Result.error.inj h
      exact follows.closes mem includes target entered
    | ok q =>
      rw [entered] at h
      exact below _ _ _ _ _ _ (follows.enter mem includes target entered) h

theorem traces_visitOverrides {seen : List String} {scope : List Block}
    (mem : ∀ b ∈ scope, .block b ∈ nodes)
    (h : visitOverrides deeper p seen scope loads = .error (.inclusionCycle name path) loads') :
    InclusionPath.Closes root name path ∧ loader.Along root top path := by
  induction scope generalizing seen loads with
  | nil => cases h
  | cons b rest ih =>
    obtain ⟨first, others⟩ := List.forall_mem_cons.1 mem
    unfold visitOverrides at h
    split at h
    · cases h
    · obtain here | ⟨_, mid, -, further⟩ := Render.bind_eq_error h
      · exact below _ _ _ _ _ _ (follows.single first) here
      · exact ih others further

/-- One case for each kind of node. -/
theorem traces_visit (mem : n ∈ nodes)
    (h : visit loader deeper p n loads = .error (.inclusionCycle name path) loads') :
    InclusionPath.Closes root name path ∧ loader.Along root top path := by
  cases n with
  | text | interpolation => cases h
  | sect s => exact below _ _ _ _ _ _ (follows.parts mem) h
  | block b => exact below _ _ _ _ _ _ (follows.parts mem) h
  | inclusion i => exact traces_visitInclusion below follows mem rfl h
  | parent i scope =>
    obtain overrides | ⟨_, mid, -, base⟩ := Render.bind_eq_error h
    · exact traces_visitOverrides below (follows.parts mem)
        (fun b inner => List.mem_map_of_mem inner) overrides
    · exact traces_visitInclusion below follows mem rfl base

end Handlers

/-- By induction on the levels left. -/
theorem traces_descend (loader : Loader) (limit : Nat) (root : Option String) (top : List Node)
    (room : Nat) : (descend loader limit room).Traces loader root top := by
  induction room with
  | zero =>
    intro p nodes name path loads loads' _ h
    cases h
  | succ room ih =>
    intro p nodes name path loads loads' follows h
    obtain ⟨n, mem, before, failed⟩ := Render.forM_eq_error h
    exact traces_visit ih follows mem failed

end Validation

theorem Template.closes_of_validate {t : Template} {loader : Loader} {config : Config}
    {root : Option String} {name : String} {path : List String}
    (h : (t.validate loader config ((root.map .rooted).getD .empty)).result =
      .error (.inclusionCycle name path)) :
    InclusionPath.Closes root name path ∧ loader.Along root t.nodes path := by
  unfold Template.validate at h
  split at h
  · cases h
  · rename_i error loads failed
    obtain rfl := Except.error.inj h
    exact Validation.traces_descend loader config.maxDepth root t.nodes (config.maxDepth + 1) _ _ _ _ _ _
      (.of_root root t.nodes) failed

/-- Cycles are reported as they are. If a render or a check fails with a cycle, whatever has been
rendered before, then the last name of its path is the name reported; before it the path holds that
name, and no other name twice; and it begins with the root, if there is one. In a check each name
behind the root is that of a partial in the template which the name before has led to, or in the one at
the root. In a render it is too, if the visits that the failing one lies inside of are plain; so it is
if there are no lambdas in the data and no overrides in the templates. -/
theorem inclusionCycle_closes (root : Option String) (name : String) (path : List String) :
    (∀ {σ : Type} (setup : Setup σ) (data : Value) (host : σ) (earlier : List Template)
      (nodes : List Node),
      let m := (InPlace.start data root host).acceptEach setup earlier
      let r := (Renderer.fresh setup data root host).acceptEach earlier
      (m.accept setup nodes).1 = .error (.inclusionCycle name path) →
        InclusionPath.Closes root name path ∧
          ((∀ v ∈ r.around nodes, v.plain) → setup.loader.Along root nodes path) ∧
          (data.LambdaFree → (∀ i scope, ¬ setup.loader.Supplies nodes (.parent i scope)) →
            setup.loader.Along root nodes path)) ∧
    ∀ (t : Template) (loader : Loader) (config : Config),
      (t.validate loader config ((root.map .rooted).getD .empty)).result =
          .error (.inclusionCycle name path) →
        InclusionPath.Closes root name path ∧ loader.Along root t.nodes path := by
  refine ⟨fun {σ} setup data host earlier nodes => ?_, fun t loader config => Template.closes_of_validate⟩
  intro m r failed
  have same := InPlace.accept_fresh setup data root host earlier nodes
  have setup_eq : r.setup = setup := by
    rw [Renderer.setup_acceptEach, Renderer.fresh_eq]
  have env_eq : r.env = { Env.ofData data with path := (root.map .rooted).getD .empty } := by
    rw [Renderer.env_acceptEach, Renderer.fresh_eq]
  have failed : (r.accept nodes).1 = .error (.inclusionCycle name path) :=
    (congrArg Prod.fst same).symm.trans failed
  obtain ⟨closes, along⟩ :=
    Renderer.closes_of_accept (congrArg Env.path env_eq) (congrArg Env.overrides env_eq) failed
  rw [setup_eq] at along
  refine ⟨closes, along, fun free unfilled => along (Renderer.plain_around ?_ ?_)⟩
  · rw [env_eq]
    exact ⟨.ofRoot free, .empty⟩
  · rw [setup_eq]
    exact unfilled

/-- Two templates that include each other, one of them in a section. -/
def roundabout : Catalog :=
  Entries.ofList [("a", .ofNodes [.text "A", .inclusion (.named "b")]),
    ("b", .ofNodes [.text "B", .sect ⟨"always", false, .absent, [.inclusion (.named "a")]⟩])]

/-- Rendered or checked from either of the two, they go round once. -/
theorem inclusionCycle_closes_mutual :
    let setup : Setup ScriptedState := ⟨.standard, roundabout.load, scriptedHost [] false⟩
    let data := Value.map [("always", .bool true)]
    let a := Template.ofNodes [.text "A", .inclusion (.named "b")]
    let path := ["a", "b", "a"]
    ((InPlace.start data (some "a") .start).accept setup a.nodes).1 =
        .error (.inclusionCycle "a" path) ∧
      (a.validate setup.loader setup.config (.rooted "a")).result =
        .error (.inclusionCycle "a" path) ∧
      InclusionPath.Closes (some "a") "a" path ∧ setup.loader.Along (some "a") a.nodes path ∧
      ∀ v ∈ (Renderer.fresh setup data (some "a") .start).around a.nodes, v.plain := by
  intro setup data a path
  have rendered : ((InPlace.start data (some "a") ScriptedState.start).accept setup a.nodes).1 =
      .error (.inclusionCycle "a" path) := by decide +kernel
  have checked : (a.validate setup.loader setup.config (.rooted "a")).result =
      .error (.inclusionCycle "a" path) := by decide +kernel
  have plain : ∀ v ∈ (Renderer.fresh setup data (some "a") ScriptedState.start).around a.nodes,
      v.plain := by
    have all : ((Renderer.fresh setup data (some "a") ScriptedState.start).around a.nodes).all
        Visit.plain := by decide +kernel
    exact List.all_eq_true.1 all
  obtain ⟨closes, along, -⟩ :=
    (inclusionCycle_closes (some "a") "a" path).1 setup data .start [] a.nodes rendered
  have again := (inclusionCycle_closes (some "a") "a" path).2 a setup.loader setup.config checked
  exact ⟨rendered, checked, again.1, along plain, plain⟩

end Mustache
