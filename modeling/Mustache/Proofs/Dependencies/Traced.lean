import Mustache.Proofs.Dependencies.Covered
import Mustache.Proofs.Dependencies.Footprint
import Mustache.Proofs.Render.Visited

/-! What a render comes to is in the dependencies of its template. The collector walks each partial
at most twice and without data; a render enters partials again and again and shows overrides inside of
other templates. But every visit that it makes is of a node that the walk covers, and so is every
override in force there. -/
namespace Mustache

/-- The body of some section is being rendered inside of these visits. -/
def insideSection (visits : List Visit) : Bool := visits.any fun v => v.node.isSection

/-- The names that an error blames are listed for what they stand for. -/
def Error.Listed (d : Dependencies) : Error → Prop
  | .partialNotFound name => name ∈ d.unresolved
  | .inclusionCycle name _ => name ∈ d.partials
  | .missingVariable name | .conversion name _ => name ∈ d.«variables»
  | _ => True

theorem RenderState.mem_loads {σ : Type} {s : RenderState σ} {name : String} :
    name ∈ s.loads ↔ .load name ∈ s.requests := by
  simp only [loads, List.mem_filterMap, List.mem_reverse]
  constructor
  · rintro ⟨request, mem, named⟩
    cases request with
    | call => cases named
    | load other =>
      obtain rfl := Option.some.inj named
      exact mem
  · exact fun mem => ⟨_, mem, rfl⟩

theorem insideSection_eq_false {visits : List Visit} :
    insideSection visits = false ↔ ∀ v ∈ visits, v.node.isSection = false := by
  simp [insideSection]

section Tracing
open Collection (Covers Ended covers_content)

/-- Surroundings that the walk covers. Outside of sections the data is the only frame. -/
structure Env.Traced (w : Collection.Walk) (own : List String) (data : Value) (inside : Bool)
    (env : Env) : Prop where
  overrides : env.overrides.All fun b => Covers w inside (.block b)
  path : own ⊆ env.path.names
  free : env.context.All Value.LambdaFree
  root : inside = false → env.context = .ofRoot data

variable {entries : Catalog} {own : List String} {w : Collection.Walk} {data : Value}
  {loader : Loader} {v : Visit} {inside : Bool}

/-- A lambda-free render has no lambda in its surroundings. -/
theorem Env.Traced.no_lambda {env : Env} (h : env.Traced w own data inside) {name : String}
    {l : Lambda} : env.context.resolve? name ≠ some (.lambda l) :=
  fun found => Value.closed_lambdaFree.lambda (h.free.resolve? Value.closed_lambdaFree found)

/-- A partial that has been entered is none of those the path begins with. -/
theorem Env.Traced.not_own {env : Env} (h : env.Traced w own data inside) {name : String}
    {path : InclusionPath} (entered : env.path.enter name = .ok path) : name ∉ own :=
  fun mem => (InclusionPath.enter_eq_ok entered).1 (h.path mem)

variable (ended : Ended entries own w)
  (same : ∀ name ∈ w.found.partials, loader name = Entries.get? name entries)
include ended same

/-- One case for each way down. -/
theorem Visit.Below.traced {env : Env} {nodes : List Node} (way : v.Below loader env nodes)
    (h : v.env.Traced w own data inside) (here : Covers w inside v.node) :
    env.Traced w own data (inside || v.node.isSection) ∧
      ∀ n ∈ nodes, Covers w (inside || v.node.isSection) n := by
  have widened : v.env.overrides.All fun b => Covers w (inside || v.node.isSection) (.block b) :=
    fun scope declared b mem => (h.overrides scope declared b mem).mono (by simp +contextual)
  obtain ⟨outer, node⟩ := v
  cases way with
  | children tag =>
    obtain rfl : node = _ := tag
    simp only [Node.isSection, Bool.or_true] at widened ⊢
    exact ⟨⟨widened, h.path, h.free, nofun⟩, here.sect.2⟩
  | @framed s value frame tag found part =>
    obtain rfl : node = _ := tag
    have resolved := h.free.resolve? Value.closed_lambdaFree found
    have free : frame.LambdaFree := by
      rcases part with rfl | ⟨items, rfl, mem⟩
      · exact resolved
      · exact resolved.of_mem mem
    simp only [Node.isSection, Bool.or_true] at widened ⊢
    exact ⟨⟨widened, h.path, h.free.push free, nofun⟩, here.sect.2⟩
  | returned tag found => exact (h.no_lambda found).elim
  | content tag =>
    obtain rfl : node = _ := tag
    obtain ⟨children, enclosing⟩ := covers_content h.overrides here
    simp only [Node.isSection, Bool.or_false]
    exact ⟨⟨enclosing, h.path, h.free, h.root⟩, children⟩
  | @inclusion i inner path t includes target entered =>
    have nodes := (here.included includes).template ended same (h.not_own entered) target
    have longer : own ⊆ path.names := by
      rw [(InclusionPath.enter_eq_ok entered).2]
      exact fun name mem => List.mem_append_left _ (h.path mem)
    cases includes with
    | plain =>
      simp only [Node.isSection, Bool.or_false]
      exact ⟨⟨h.overrides, longer, h.free, h.root⟩, nodes⟩
    | parent _ scope =>
      simp only [Node.isSection, Bool.or_false]
      exact ⟨⟨h.overrides.push here.parent.2, longer, h.free, h.root⟩, nodes⟩

/-- By induction from the outermost visit on. -/
theorem Nested.traced {top : Env} {nodes : List Node} (start : top.Traced w own data false)
    (covered : ∀ n ∈ nodes, Covers w false n) {around : List Visit}
    (h : Nested loader top nodes v around) :
    v.env.Traced w own data (insideSection around) ∧ Covers w (insideSection around) v.node := by
  induction h with
  | outermost mem => exact ⟨start, covered _ mem⟩
  | @inside u outer env inner n _ way mem ih =>
    obtain ⟨below, nodes⟩ := way.traced ended same ih.1 ih.2
    have inside : insideSection (u :: outer) = (insideSection outer || u.node.isSection) := by
      simp only [insideSection, List.any_cons, Bool.or_comm]
    rw [inside]
    exact ⟨below, nodes n mem⟩

/-- One case for each reason. -/
theorem Visit.Raises.listed {σ : Type} {setup : Setup σ} (loads : setup.loader = loader)
    (present : ∀ name ∈ own, loader name ≠ none)
    (h : v.env.Traced w own data inside) (here : Covers w inside v.node) {error : Error}
    (raises : v.Raises setup error) : error.Listed w.found := by
  subst loads
  obtain ⟨env, node⟩ := v
  cases raises with
  | cancelled => trivial
  | missing tag =>
    obtain rfl : node = _ := tag
    exact here.recorded_variable.1
  | conversion tag =>
    obtain rfl : node = _ := tag
    exact here.recorded_variable.1
  | lambda found => exact (h.no_lambda found).elim
  | fault fault =>
    cases fault with
    | @missing _ i _ mem includes target =>
      obtain rfl := List.mem_singleton.1 mem
      have included := here.included includes
      refine included.recorded_missing ended same (fun mem => present _ mem ?_) target
      rwa [Loader.target?, included.unsettled] at target
    | cycle mem includes target entered =>
      obtain rfl := List.mem_singleton.1 mem
      obtain ⟨-, rfl⟩ := InclusionPath.enter_eq_error entered
      exact (here.included includes).recorded_partial

end Tracing

theorem Renderer.accept_of_run_error {σ : Type} {r : Renderer σ} {nodes : List Node} {error : Error}
    (failed : (r.run nodes).result = .error error) : (r.accept nodes).1 = .error error := by
  obtain ⟨after, ran⟩ := run_eq_error failed
  rw [accept, ran]

namespace Engine
variable {σ : Type} {e : Engine} {name : String} {t : Template} {w : Collection.Walk}

/-- The journal of rendering a registered template below its own name. -/
def journal (e : Engine) (host : Host σ) (name : String) (data : Value) (state : σ) : Journal :=
  match e.get? name with
  | some t => ((Renderer.start (e.setup host) data state).rootedAt name).journal t.nodes
  | none => []

/-- What is sure of the render of a template whose dependencies come from a walk. -/
structure Renders (e : Engine) (host : Host σ) (name : String) (data : Value) (state : σ)
    (w : Collection.Walk) : Prop where
  loads {other : String} (asked : other ∈ (e.render host name data state).state.loads) :
    ∃ v around, v :: around ∈ e.journal host name data state ∧ v.LooksUp other
  fails {error : Error} (failed : (e.render host name data state).result = .error error) :
    FailsAt (e.setup host) error (e.journal host name data state)
  traced {v : Visit} {around : List Visit} (mem : v :: around ∈ e.journal host name data state) :
    v.env.Traced w [name] data (insideSection around) ∧
      Collection.Covers w (insideSection around) v.node

theorem renders_of_walks (unsettled : e.Unsettled) (found : e.get? name = some t)
    (walks : e.Walks name t w) {data : Value} (free : data.LambdaFree) (host : Host σ) (state : σ) :
    e.Renders host name data state w := by
  let r := (Renderer.start (e.setup host) data state).rootedAt name
  obtain ⟨accounts, fails⟩ := r.accounts_journal t.nodes
  have render : e.render host name data state = r.run t.nodes := by rw [Engine.render, found]
  have journal : e.journal host name data state = r.journal t.nodes := by rw [Engine.journal, found]
  have start : r.env.Traced w [name] data false :=
    ⟨.empty, fun _ mem => mem, .ofRoot free, fun _ => rfl⟩
  have nodes : ∀ n ∈ t.nodes, Collection.Covers w false n :=
    Collection.covers_of_walked (unsettled name t found) id walks.nodes
  refine ⟨fun asked => ?_, fun failed => ?_, fun mem => ?_⟩
  · rw [render, RenderState.mem_loads] at asked
    rw [journal]
    exact (accounts.loads asked).resolve_left nofun
  · rw [render] at failed
    rw [journal]
    exact fails _ (Renderer.accept_of_run_error failed)
  · rw [journal] at mem
    exact (accounts.nested mem).traced (ended_of_walks unsettled walks) (fun _ _ => rfl) start nodes

/-- A registered template has dependencies, and whatever a render without lambdas asks for is among
them: every partial looked up, the partial it fails to find, the one it finds in a cycle, and the
variable that is missing or has no text. -/
theorem render_within_dependencies (filled : e.Filled) (registered : e.contains name = true) :
    ∃ d, e.dependencies name = .ok d ∧
      ∀ {data : Value}, data.LambdaFree → ∀ {σ : Type} (host : Host σ) (state : σ),
        let rendering := e.render host name data state
        (∀ asked ∈ rendering.state.loads, asked ∈ d.partials) ∧
        (∀ absent, rendering.result = .error (.partialNotFound absent) → absent ∈ d.unresolved) ∧
        (∀ again path, rendering.result = .error (.inclusionCycle again path) →
          again ∈ d.partials) ∧
        (∀ tag, rendering.result = .error (.missingVariable tag) → tag ∈ d.«variables») ∧
        ∀ tag kind, rendering.result = .error (.conversion tag kind) → tag ∈ d.«variables» := by
  obtain ⟨t, w, found, walks, known⟩ := walks_of_contains filled.unsettled registered
  refine ⟨w.found, known, fun {data} free {σ} host state => ?_⟩
  have renders := renders_of_walks filled.unsettled found walks free host state
  have ended := ended_of_walks filled.unsettled walks
  have present : ∀ own ∈ [name], e.templates.load own ≠ none := by
    intro own mem absent
    obtain rfl := List.mem_singleton.1 mem
    cases absent.symm.trans found
  have listed {error : Error} (failed : (e.render host name data state).result = .error error) :
      error.Listed w.found := by
    rcases renders.fails failed with rfl | ⟨v, around, earlier, last, raises⟩
    · trivial
    · obtain ⟨traced, here⟩ := renders.traced (last ▸ List.mem_cons_self)
      exact raises.listed ended (fun _ _ => rfl) rfl present traced here
  refine ⟨fun asked mem => ?_, fun _ failed => listed failed, fun _ _ failed => listed failed,
    fun _ failed => listed failed, fun _ _ failed => listed failed⟩
  obtain ⟨v, around, visited, i, inner, includes, -, rfl⟩ := renders.loads mem
  exact ((renders.traced visited).2.included includes).recorded_partial

/-- A page with a place for a body. -/
def base : Template :=
  ⟨none, "\x7b\x7b>footer\x7d\x7d\x7b\x7b$body\x7d\x7d\x7b\x7b/body\x7d\x7d",
    [.inclusion (.named "footer"), .block ⟨"body", []⟩]⟩

/-- A page that fills the body of another. -/
def article : Template :=
  let content := "\x7b\x7b$body\x7d\x7d\x7b\x7btitle\x7d\x7d\x7b\x7b/body\x7d\x7d"
  let source := "\x7b\x7b<base\x7d\x7d" ++ content ++ "\x7b\x7b/base\x7d\x7d"
  ⟨none, source, [.parent (.named "base") [⟨"body", [.interpolation "title" true]⟩]]⟩

/-- These pages, in an engine that takes a missing variable for a failure. -/
def pages : Engine :=
  let e := new { Config.standard with strictVariables := true }
  ((e.put "footer" footer).put "base" base).put "article" article

theorem pages_filled : pages.Filled := by
  have read_footer : Template.parse footer.source = .ok footer := by decide +kernel
  have read_base : Template.parse base.source = .ok base := by decide +kernel
  have read_article : Template.parse article.source = .ok article := by decide +kernel
  exact (((Filled.new _).put read_footer).put read_base).put read_article

/-- The content of an override lacks its title. -/
theorem render_article :
    let data := Value.map [("year", .str "2020")]
    let rendering := pages.render (scriptedHost [] false) "article" data .start
    pages.contains "article" = true ∧ rendering.state.loads = ["base", "footer"] ∧
      rendering.result = .error (.missingVariable "title") ∧
      ∃ d, pages.dependencies "article" = .ok d ∧ "base" ∈ d.partials ∧ "footer" ∈ d.partials ∧
        "title" ∈ d.«variables» := by
  intro data rendering
  have registered : pages.contains "article" = true := by decide +kernel
  have asked : rendering.state.loads = ["base", "footer"] := by decide +kernel
  have failed : rendering.result = .error (.missingVariable "title") := by decide +kernel
  have free : data.LambdaFree := by simp [data, Value.LambdaFree, Value.LambdaFreeEntries]
  obtain ⟨d, known, within⟩ := render_within_dependencies pages_filled registered
  obtain ⟨loads, -, -, missing, -⟩ := within free (scriptedHost [] false) .start
  exact ⟨registered, asked, failed, d, known, loads _ (by rw [asked]; simp),
    loads _ (by rw [asked]; simp), missing _ failed⟩

end Engine

end Mustache
