import Mustache.Proofs.Render.Unfolded
import Mustache.Proofs.Tree

/-! Without lambdas a render is finite. Going down into children makes the nodes fewer, going into
an override leaves fewer scopes, and a partial can be entered only while its name is not on the
path; a scope is added only where a name is. What would go on without end if names could be entered
again is reported as a cycle. -/
namespace Mustache

mutual

/-- The names of all partials in a node, those of settled templates included. -/
def Node.partials : Node → List String
  | .text _ => []
  | .interpolation _ _ => []
  | .sect s => s.partials
  | .inclusion i => i.partials
  | .parent i overrides => i.partials ++ Block.allPartials overrides
  | .block b => b.partials

def Section.partials : Section → List String
  | ⟨_, _, _, children⟩ => Node.allPartials children

def Inclusion.partials : Inclusion → List String
  | ⟨name, _, target⟩ => name :: Template.targetPartials target

def Block.partials : Block → List String
  | ⟨_, children⟩ => Node.allPartials children

def Template.partials : Template → List String
  | ⟨_, _, nodes⟩ => Node.allPartials nodes

def Template.targetPartials : Option Template → List String
  | none => []
  | some t => t.partials

def Node.allPartials : List Node → List String
  | [] => []
  | n :: rest => n.partials ++ Node.allPartials rest

def Block.allPartials : List Block → List String
  | [] => []
  | b :: rest => b.partials ++ Block.allPartials rest

end

theorem Section.allPartials_children (s : Section) : Node.allPartials s.children = s.partials := by
  cases s
  rfl

theorem Block.allPartials_children (b : Block) : Node.allPartials b.children = b.partials := by
  cases b
  rfl

theorem Inclusion.partials_eq (i : Inclusion) :
    i.partials = i.name :: Template.targetPartials i.target := by
  cases i
  rfl

theorem Template.allPartials_nodes (t : Template) : Node.allPartials t.nodes = t.partials := by
  cases t
  rfl

/-- Nodes with at most `bound` nodes in them, whose partials are all among the names. -/
structure Node.Fit (names : List String) (bound : Nat) (nodes : List Node) : Prop where
  size : Node.sizes nodes ≤ bound
  partials : Node.allPartials nodes ⊆ names

/-- The lists of nodes that a node holds. -/
inductive Node.Holds : Node → List Node → Prop
  | children (s : Section) : Holds (.sect s) s.children
  | default (b : Block) : Holds (.block b) b.children
  | override {i : Inclusion} {scope : List Block} {b : Block} (mem : b ∈ scope) :
    Holds (.parent i scope) b.children
  | target {node : Node} {i : Inclusion} {o inner : Overrides} {t : Template}
    (includes : node.Includes o i inner) (settled : i.target = some t) : Holds node t.nodes

namespace Node
variable {names : List String} {bound : Nat} {nodes inner : List Node} {node : Node}

theorem partials_of_mem (mem : node ∈ nodes) : node.partials ⊆ allPartials nodes := by
  induction nodes with
  | nil => cases mem
  | cons first rest ih =>
    rw [allPartials]
    rcases List.mem_cons.1 mem with rfl | mem
    · exact List.subset_append_left _ _
    · exact List.Subset.trans (ih mem) (List.subset_append_right _ _)

theorem partials_override {scope : List Block} {b : Block} (mem : b ∈ scope) :
    allPartials b.children ⊆ Block.allPartials scope := by
  induction scope with
  | nil => cases mem
  | cons first rest ih =>
    rw [Block.allPartials]
    rcases List.mem_cons.1 mem with rfl | mem
    · rw [Block.allPartials_children]
      exact List.subset_append_left _ _
    · exact List.Subset.trans (ih mem) (List.subset_append_right _ _)

theorem Holds.sizes_lt (holds : node.Holds inner) : sizes inner < node.size := by
  cases holds with
  | children s =>
    rw [size, Section.sizes_children]
    omega
  | default b =>
    rw [size, Block.sizes_children]
    omega
  | override mem =>
    have := sizes_override_lt mem
    rw [size]
    omega
  | @target _ i o inner t includes settled =>
    have target : sizes t.nodes = i.size := by
      rw [Template.sizes_nodes, ← Inclusion.size_target, settled, Template.targetSize]
    cases includes <;> rw [size] <;> omega

theorem partials_target {i : Inclusion} {t : Template} (settled : i.target = some t) :
    allPartials t.nodes ⊆ i.partials := by
  rw [i.partials_eq, settled, Template.targetPartials, Template.allPartials_nodes]
  exact List.subset_cons_self _ _

theorem Holds.partials (holds : node.Holds inner) : allPartials inner ⊆ node.partials := by
  cases holds with
  | children s =>
    rw [Section.allPartials_children, partials]
    exact List.Subset.refl _
  | default b =>
    rw [Block.allPartials_children, partials]
    exact List.Subset.refl _
  | override mem =>
    rw [partials]
    exact List.Subset.trans (partials_override mem) (List.subset_append_right _ _)
  | target includes settled =>
    cases includes with
    | plain =>
      rw [partials]
      exact partials_target settled
    | parent =>
      rw [partials]
      exact List.Subset.trans (partials_target settled) (List.subset_append_left _ _)

theorem Includes.mem_partials {i : Inclusion} {o inner : Overrides}
    (includes : node.Includes o i inner) : i.name ∈ node.partials := by
  have own : i.name ∈ i.partials := by
    rw [i.partials_eq]
    exact List.mem_cons_self
  cases includes with
  | plain =>
    rw [partials]
    exact own
  | parent =>
    rw [partials]
    exact List.mem_append_left _ own

theorem Fit.mono {names' : List String} {bound' : Nat} (fit : Fit names bound nodes)
    (wider : names ⊆ names') (larger : bound ≤ bound') : Fit names' bound' nodes :=
  ⟨Nat.le_trans fit.size larger, List.Subset.trans fit.partials wider⟩

theorem Fit.of_holds (fit : Fit names bound nodes) (mem : node ∈ nodes) (holds : node.Holds inner) :
    Fit names bound inner := by
  have fewer := holds.sizes_lt
  have within := size_le_of_mem mem
  have := fit.size
  have inside := List.Subset.trans holds.partials (partials_of_mem mem)
  exact ⟨by omega, List.Subset.trans inside fit.partials⟩

theorem Fit.mem_names {i : Inclusion} {o inner : Overrides} (fit : Fit names bound nodes)
    (mem : node ∈ nodes) (includes : node.Includes o i inner) : i.name ∈ names :=
  fit.partials (partials_of_mem mem includes.mem_partials)

end Node

/-- The names that can still be entered. -/
def InclusionPath.fresh (p : InclusionPath) (names : List String) : Nat :=
  (names.filter fun name => !p.contains name).length

theorem InclusionPath.fresh_of_enter {p q : InclusionPath} {name : String} {names : List String}
    (h : p.enter name = .ok q) (mem : name ∈ names) : q.fresh names < p.fresh names := by
  obtain ⟨new, hq⟩ := enter_eq_ok h
  have left : (names.filter fun n => !q.contains n) =
      (names.filter fun n => !p.contains n).filter (· ≠ name) := by
    rw [List.filter_filter]
    refine List.filter_congr fun n _ => ?_
    simp only [contains, hq, List.contains_append]
    by_cases same : n = name <;> simp [same]
  unfold fresh
  rw [left, List.length_filter_lt_length_iff_exists]
  refine ⟨name, List.mem_filter.2 ⟨mem, ?_⟩, by simp⟩
  simpa [contains] using new

/-- A loader whose templates all fit, so that nothing else can ever be included. -/
def Loader.Fit (names : List String) (bound : Nat) (loader : Loader) : Prop :=
  ∀ name t, loader name = some t → Node.Fit names bound t.nodes

namespace Site

/-- What is in force at a site fits, and there are no more scopes than names on the path. -/
structure Confined (names : List String) (bound : Nat) (site : Site) : Prop where
  nodes : Node.Fit names bound site.nodes
  overrides : site.overrides.All fun b => Node.Fit names bound b.children
  spent : site.overrides.size + site.path.fresh names ≤ names.length

/-- A number that shrinks on the way down: the names that can be entered, the scopes in force and
the nodes, as the digits of a number. -/
def rank (names : List String) (bound : Nat) (site : Site) : Nat :=
  (site.path.fresh names * (names.length + 1) + site.overrides.size) * (bound + 1) +
    Node.sizes site.nodes

/-- A higher digit that shrinks outweighs whatever stands below it. -/
theorem digit_lt {base high high' low low' : Nat} (less : high' < high) (small : low' ≤ base) :
    high' * (base + 1) + low' < high * (base + 1) + low := by
  have step : (high' + 1) * (base + 1) ≤ high * (base + 1) := Nat.mul_le_mul_right _ less
  rw [Nat.succ_mul] at step
  omega

variable {names : List String} {bound : Nat} {loader : Loader} {a b : Site}

theorem Confined.of_holds {node : Node} {inner : List Node} (h : a.Confined names bound)
    (mem : node ∈ a.nodes) (holds : node.Holds inner) :
    ({ a with nodes := inner } : Site).Confined names bound ∧
      ({ a with nodes := inner } : Site).rank names bound < a.rank names bound := by
  have fewer := Nat.lt_of_lt_of_le holds.sizes_lt (Node.size_le_of_mem mem)
  exact ⟨⟨h.nodes.of_holds mem holds, h.overrides, h.spent⟩, Nat.add_lt_add_left fewer _⟩

theorem Confined.of_override {name : String} {override : Block} {enclosing : Overrides}
    (h : a.Confined names bound) (found : a.overrides.resolve? name = some (override, enclosing)) :
    Confined names bound ⟨a.path, enclosing, override.children⟩ ∧
      rank names bound ⟨a.path, enclosing, override.children⟩ < a.rank names bound := by
  have fewer := Overrides.size_of_resolve? found
  have spent := h.spent
  obtain ⟨fit, rest⟩ := h.overrides.of_resolve? found
  refine ⟨⟨fit, rest, ?_⟩, digit_lt (Nat.add_lt_add_left fewer _) fit.size⟩
  change enclosing.size + a.path.fresh names ≤ names.length
  omega

/-- A partial brings at most one scope with it, and uses up a name. -/
theorem Confined.of_inclusion {node : Node} {i : Inclusion} {inner : Overrides} {t : Template}
    {path : InclusionPath} (closed : loader.Fit names bound) (h : a.Confined names bound)
    (mem : node ∈ a.nodes) (includes : node.Includes a.overrides i inner)
    (target : loader.target? i = some t) (enter : a.path.enter i.name = .ok path) :
    Confined names bound ⟨path, inner, t.nodes⟩ ∧
      rank names bound ⟨path, inner, t.nodes⟩ < a.rank names bound := by
  have fewer := InclusionPath.fresh_of_enter enter (h.nodes.mem_names mem includes)
  have spent := h.spent
  have fit : Node.Fit names bound t.nodes := by
    unfold Loader.target? at target
    cases settled : i.target with
    | some other =>
      rw [settled] at target
      obtain rfl := Option.some.inj target
      exact h.nodes.of_holds mem (.target includes settled)
    | none =>
      rw [settled] at target
      exact closed i.name t target
  have scopes : inner.All (fun b => Node.Fit names bound b.children) ∧
      inner.size ≤ a.overrides.size + 1 := by
    cases includes with
    | plain => exact ⟨h.overrides, Nat.le_succ _⟩
    | parent i scope =>
      refine ⟨h.overrides.push fun b hb => ?_, Nat.le_refl _⟩
      exact h.nodes.of_holds mem (.override hb)
  refine ⟨⟨fit, scopes.1, ?_⟩, digit_lt (digit_lt fewer ?_) fit.size⟩
  · change inner.size + path.fresh names ≤ names.length
    omega
  · change inner.size ≤ names.length
    omega

theorem Confined.of_below (closed : loader.Fit names bound) (h : a.Confined names bound)
    (way : Below loader False a b) :
    b.Confined names bound ∧ b.rank names bound < a.rank names bound := by
  cases way with
  | children mem => exact h.of_holds mem (.children _)
  | returned allowed => exact allowed.elim
  | default mem => exact h.of_holds mem (.default _)
  | override mem found => exact h.of_override found
  | inclusion mem includes target enter => exact h.of_inclusion closed mem includes target enter

/-- So no way down is longer than the rank it begins at. -/
theorem Confined.levels_le {levels : Nat} (closed : loader.Fit names bound)
    (h : a.Confined names bound) (way : Descends loader False levels a b) :
    levels ≤ a.rank names bound := by
  induction way with
  | here => exact Nat.zero_le _
  | down first rest ih =>
    obtain ⟨confined, less⟩ := h.of_below closed first
    have := ih confined
    omega

/-- One level down where nothing keeps a partial from standing inside of itself. -/
inductive Unfolds (loader : Loader) (site : Site) : Site → Prop
  | below {next : Site} (way : Below loader False site next) : Unfolds loader site next
  | again {node : Node} {i : Inclusion} {inner : Overrides} {t : Template}
    (mem : node ∈ site.nodes) (includes : node.Includes site.overrides i inner)
    (target : loader.target? i = some t) (entered : i.name ∈ site.path.names) :
    Unfolds loader site ⟨⟨site.path.names ++ [i.name]⟩, inner, t.nodes⟩

theorem Unfolds.below_or_cycle (h : a.Unfolds loader b) :
    Below loader False a b ∨ ∃ name path, a.Fault loader (.inclusionCycle name path) := by
  cases h with
  | below way => exact .inl way
  | again mem includes target entered =>
    have closed := InclusionPath.enter_of_mem entered
    exact .inr ⟨_, _, .cycle mem includes target closed⟩

/-- What could be unfolded without end comes to a cycle before its levels are used up. -/
theorem Confined.cycle_of_unfolds (closed : loader.Fit names bound) {unfolding : Nat → Site}
    (h : (unfolding 0).Confined names bound)
    (steps : ∀ k, (unfolding k).Unfolds loader (unfolding (k + 1))) :
    ∃ k ≤ (unfolding 0).rank names bound, ∃ name path,
      (unfolding k).Fault loader (.inclusionCycle name path) := by
  refine Classical.byContradiction fun none => ?_
  have way (k : Nat) (hk : k ≤ (unfolding 0).rank names bound + 1) :
      Descends loader False k (unfolding 0) (unfolding k) := by
    induction k with
    | zero => exact .here _
    | succ k ih =>
      rcases (steps k).below_or_cycle with below | cycle
      · exact (ih (by omega)).trans (.down below (.here _))
      · exact absurd ⟨k, by omega, cycle⟩ none
  have longest := h.levels_le closed (way _ (Nat.le_refl _))
  omega

end Site

/-- The names of all partials in the templates of a catalog. -/
def Catalog.partials (c : Catalog) : List String := c.flatMap fun entry => entry.2.partials

def Catalog.size : Catalog → Nat
  | [] => 0
  | entry :: rest => entry.2.size + Catalog.size rest

theorem Catalog.size_le_of_mem {c : Catalog} {entry : String × Template} (mem : entry ∈ c) :
    entry.2.size ≤ c.size := by
  induction c with
  | nil => cases mem
  | cons first rest ih =>
    rw [size]
    rcases List.mem_cons.1 mem with rfl | mem
    · omega
    · have := ih mem
      omega

theorem Catalog.fit_load (c : Catalog) : c.load.Fit c.partials c.size := by
  intro name t found
  have mem : (name, t) ∈ c := Entries.mem_of_get? found
  constructor
  · rw [Template.sizes_nodes]
    exact size_le_of_mem mem
  · rw [Template.allPartials_nodes]
    exact fun name' hn => List.mem_flatMap.2 ⟨_, mem, hn⟩

theorem Template.confined_site (t : Template) (c : Catalog) :
    t.site.Confined (t.partials ++ c.partials) (t.size + c.size) := by
  refine ⟨⟨?_, ?_⟩, Overrides.All.empty, ?_⟩
  · rw [site, t.sizes_nodes]
    exact Nat.le_add_right _ _
  · rw [site, t.allPartials_nodes]
    exact List.subset_append_left _ _
  · change 0 + t.site.path.fresh _ ≤ _
    rw [Nat.zero_add]
    exact List.length_filter_le _ _

/-- A cycle is reported: the path, and behind it the name on it that was to be entered again. -/
def Rendering.ReportsCycle {σ : Type} (r : Rendering σ) : Prop :=
  ∃ path name, name ∈ path ∧ r.result = .error (.inclusionCycle name (path ++ [name]))

namespace Template
variable {σ : Type} {t : Template} {setup : Setup σ} {names : List String} {bound : Nat}
  {data : Value} {state : σ} {error : Error}

section Deep
variable (closed : setup.loader.Fit names bound) (confined : t.site.Confined names bound)
  (deep : t.site.rank names bound ≤ setup.config.maxDepth) (free : data.LambdaFree)
include closed confined deep free

/-- With as many levels as the rank it begins at, a render fails on account of the data, or of a
partial at a site that lies no deeper than that. -/
theorem origin_of_confined (failed : (t.render setup data state).result = .error error) :
    setup.Refuses Value.LambdaFree error ∨
      ∃ levels ≤ t.site.rank names bound, ∃ site,
        Site.Descends setup.loader False levels t.site site ∧ site.Fault setup.loader error := by
  rcases cause_of_render Value.closed_lambdaFree free failed with refused | ⟨_, way, fault⟩ | way
  · exact .inl refused
  · exact .inr ⟨_, confined.levels_le closed way, _, way, fault⟩
  · have longest : setup.config.maxDepth + 1 ≤ _ := confined.levels_le closed way
    omega

theorem error_of_confined (failed : (t.render setup data state).result = .error error) :
    setup.Refuses Value.LambdaFree error ∨ (∃ name, error = .partialNotFound name) ∨
      ∃ path name, name ∈ path ∧ error = .inclusionCycle name (path ++ [name]) := by
  rcases origin_of_confined closed confined deep free failed with
    refused | ⟨_, _, site, _, fault⟩
  · exact .inl refused
  · rcases fault.error_eq with missing | ⟨name, entered, rfl⟩
    · exact .inr (.inl missing)
    · exact .inr (.inr ⟨_, name, entered, rfl⟩)

/-- A cycle that is reported stands at a site, whatever the data. -/
theorem fault_of_cycle {name : String} {path : List String}
    (failed : (t.render setup data state).result = .error (.inclusionCycle name path)) :
    ∃ levels ≤ t.site.rank names bound, ∃ site,
      Site.Descends setup.loader False levels t.site site ∧
        site.Fault setup.loader (.inclusionCycle name path) := by
  rcases origin_of_confined closed confined deep free failed with refused | there
  · exact refused.elim
  · exact there

theorem not_depthExceeded_of_confined (limit : Nat) :
    (t.render setup data state).result ≠ .error (.depthExceeded limit) := by
  intro failed
  rcases error_of_confined closed confined deep free failed with refused | ⟨_, e⟩ | ⟨_, _, _, e⟩
  · exact refused
  · cases e
  · cases e

/-- The levels are enough for whatever it does not refuse to enter. -/
theorem unfolded_or_reportsCycle :
    t.render setup data state = t.renderUnfolded setup data state ∨
      (t.render setup data state).ReportsCycle := by
  rcases t.render_eq_unfolded_or_cycle setup data state with same | ⟨name, path, failed⟩
  · exact .inl same
  · rcases error_of_confined closed confined deep free failed with
      refused | ⟨_, e⟩ | ⟨path', name', mem, e⟩
    · exact refused.elim
    · cases e
    · exact .inr ⟨path', name', mem, failed.trans (congrArg Except.error e)⟩

/-- What the levels are not enough for if it is unfolded has been found to be a cycle. -/
theorem reportsCycle_of_unfolded {limit : Nat}
    (endless : (t.renderUnfolded setup data state).result = .error (.depthExceeded limit)) :
    (t.render setup data state).ReportsCycle := by
  rcases unfolded_or_reportsCycle closed confined deep free with same | cycle
  · rw [← same] at endless
    exact absurd endless (not_depthExceeded_of_confined closed confined deep free limit)
  · exact cycle

end Deep

/-- Some depth is enough for all data without lambdas: a render that is allowed so many levels never
goes too deep. Where it would if partials were unfolded inside of themselves, it reports a cycle;
where it reports none it comes to what the unfolding comes to; and a cycle that it reports stands at
one of the sites below it. Whatever the data, sites that could be unfolded without end come to a cycle
before these levels are used up. -/
theorem render_finite (t : Template) (c : Catalog) :
    ∃ bound,
      (∀ {σ : Type} (config : Config) (host : Host σ) (data : Value) (state : σ),
        data.LambdaFree → bound ≤ config.maxDepth →
        let setup : Setup σ := ⟨config, c.load, host⟩
        let rendering := t.render setup data state
        let unfolded := t.renderUnfolded setup data state
        (∀ error, rendering.result = .error error →
          (∀ limit, error ≠ .depthExceeded limit) ∧
            (setup.Refuses Value.LambdaFree error ∨ (∃ name, error = .partialNotFound name) ∨
              ∃ path name, name ∈ path ∧ error = .inclusionCycle name (path ++ [name]))) ∧
        (∀ limit, unfolded.result = .error (.depthExceeded limit) → rendering.ReportsCycle) ∧
        (rendering = unfolded ∨ rendering.ReportsCycle) ∧
        ∀ name path, rendering.result = .error (.inclusionCycle name path) →
          ∃ levels ≤ bound, ∃ site, Site.Descends c.load False levels t.site site ∧
            site.Fault c.load (.inclusionCycle name path)) ∧
      ∀ unfolding : Nat → Site, unfolding 0 = t.site →
        (∀ k, (unfolding k).Unfolds c.load (unfolding (k + 1))) →
        ∃ k ≤ bound, ∃ name path, (unfolding k).Fault c.load (.inclusionCycle name path) := by
  have closed : c.load.Fit (t.partials ++ c.partials) (t.size + c.size) := fun name found loaded =>
    (c.fit_load name found loaded).mono (List.subset_append_right _ _) (Nat.le_add_left _ _)
  have confined := t.confined_site c
  refine ⟨t.site.rank (t.partials ++ c.partials) (t.size + c.size), ?_, ?_⟩
  · intro σ config host data state free deep setup rendering unfolded
    refine ⟨fun error failed => ⟨?_, error_of_confined closed confined deep free failed⟩,
      fun _ endless => reportsCycle_of_unfolded closed confined deep free endless,
      unfolded_or_reportsCycle closed confined deep free,
      fun name path failed => fault_of_cycle closed confined deep free failed⟩
    rintro limit rfl
    exact not_depthExceeded_of_confined closed confined deep free limit failed
  · intro unfolding start steps
    rw [← start] at confined ⊢
    exact confined.cycle_of_unfolds closed steps

/-- A refrain that ends in itself. -/
def refrain : Template := ⟨some "refrain", "", [.text "and so on, ", .inclusion (.named "refrain")]⟩

/-- The refrain where it finds itself, with no lambdas at hand. -/
def refrainSetup (config : Config) : Setup Unit :=
  ⟨config, Catalog.load [("refrain", refrain)], ⟨fun _ _ s => (.ok "", s), fun _ => false⟩⟩

/-- By induction on the levels left: each of them writes the text once more. -/
theorem unfolded_refrain (config : Config) (room : Nat) (env : Env) (s : RenderState Unit) :
    ∃ after, Render.unfolded (refrainSetup config) room env refrain.nodes s =
      .error (.depthExceeded config.maxDepth) after := by
  induction room generalizing env s with
  | zero => exact ⟨s, rfl⟩
  | succ room ih =>
    let inside : Env := { env with path := .rooted "refrain" }
    let looked : RenderState Unit :=
      ⟨.text env.indent "and so on, " :: s.writes, .load "refrain" :: s.requests, ()⟩
    obtain ⟨after, deeper⟩ := ih inside looked
    have step : Render.unfolded (refrainSetup config) (room + 1) env refrain.nodes s =
        (Render.unfolded (refrainSetup config) room inside refrain.nodes >>= fun _ => pure ())
          looked := rfl
    refine ⟨after, ?_⟩
    rw [step, Render.bind_apply, deeper]

/-- However many levels there are, the unfolded refrain goes too deep; rendered with enough of them it
is reported as a cycle. -/
theorem render_finite_refrain :
    (∀ config, (refrain.renderUnfolded (refrainSetup config) .null ()).result =
      .error (.depthExceeded config.maxDepth)) ∧
    ∃ bound, ∀ config, bound ≤ config.maxDepth →
      (refrain.render (refrainSetup config) .null ()).ReportsCycle := by
  have endless (config : Config) : (refrain.renderUnfolded (refrainSetup config) .null ()).result =
      .error (.depthExceeded config.maxDepth) := by
    obtain ⟨after, ended⟩ := unfolded_refrain config (config.maxDepth + 1) (.ofData .null) (.start ())
    change (Render.outcome (Render.unfolded (refrainSetup config) (config.maxDepth + 1)
      (.ofData .null) refrain.nodes (.start ()))).map _ = _
    rw [ended]
    rfl
  obtain ⟨bound, levels, -⟩ := render_finite refrain [("refrain", refrain)]
  refine ⟨endless, bound, fun config deep => ?_⟩
  have free : Value.null.LambdaFree := by simp [Value.LambdaFree]
  exact (levels config _ .null () free deep).2.1 _ (endless config)

end Template

end Mustache
