import Mustache.Proofs.Site.Validated

/-! Overrides in their places. A check looks at an override where it is declared, with the path and
the levels of that place; a render comes to it inside of a layout, where the path is longer and
fewer levels are left. What passes the check nests well if the overrides also do where they are
placed. No less will do: without upright sections, empty data take every way there is. -/
namespace Mustache

/-- The empty value. -/
def Value.IsNull (value : Value) : Prop := value = .null

theorem Value.closed_isNull : Value.Closed IsNull False where
  member h hm := by
    obtain rfl : _ = null := h
    cases hm
  item h _ := by cases h
  lambda h := by cases h

namespace Render
variable {σ : Type} {setup : Setup σ} {deeper : Deeper σ} {env : Env} {nodes : List Node}
  {s after : RenderState σ} {next : Site}

theorem handle_of_visit {node : Node} (h : visit setup deeper env node s = .ok () after) :
    ∃ mid, handle setup deeper env node mid = .ok () after := by
  rw [visit_eq] at h
  obtain ⟨_, mid, -, handled⟩ := bind_eq_ok h
  exact ⟨mid, handled⟩

/-- Where nothing resolves to anything, the children of an inverted section are rendered. -/
theorem visitSection_of_null {t : Section} (null : env.context.All Value.IsNull)
    (inverted : t.inverted = true) :
    visitSection setup deeper env t = deeper env t.children := by
  unfold visitSection
  cases hr : env.context.resolve? t.name with
  | none => simp only [inverted, if_true, visitInverted]
  | some value =>
    have empty : value.IsNull := null.resolve? Value.closed_isNull hr
    obtain rfl : value = .null := empty
    simp only [inverted, if_true, visitInverted, Value.shape]

/-- A partial that is rendered is there, and its name is not on the path. -/
theorem ran_of_visitInclusion {i : Inclusion} (env : Env)
    (h : visitInclusion setup deeper env i s = .ok () after) :
    ∃ t path indent before, setup.loader.target? i = some t ∧ env.path.enter i.name = .ok path ∧
      deeper { env with path, indent } t.nodes before = .ok () after := by
  rw [visitInclusion_eq] at h
  obtain ⟨t, mid, found, entered⟩ := bind_eq_ok h
  have target := target_of_ok found
  unfold visitTemplate at entered
  cases enter : env.path.enter i.name with
  | error e =>
    rw [enter] at entered
    cases entered
  | ok path =>
    simp only [enter] at entered
    split at entered
    · exact ⟨t, path, env.indent, mid, target, rfl, entered⟩
    · obtain ⟨_, line, -, ran⟩ := bind_eq_ok entered
      exact ⟨t, path, _, line, target, rfl, ran⟩

theorem ran_of_includes {node : Node} {i : Inclusion} {inner : Overrides}
    (includes : node.Includes env.overrides i inner)
    (h : handle setup deeper env node s = .ok () after) :
    ∃ t path indent before, setup.loader.target? i = some t ∧ env.path.enter i.name = .ok path ∧
      deeper { env with overrides := inner, path, indent } t.nodes before = .ok () after := by
  cases includes with
  | plain => exact ran_of_visitInclusion env h
  | parent _ scope =>
    exact ran_of_visitInclusion { env with overrides := env.overrides.push scope } h

/-- With empty data, whatever is one level below has been rendered. -/
theorem ran_of_below (null : env.context.All Value.IsNull)
    (inverted : ∀ t, .sect t ∈ nodes → t.inverted = true)
    (ran : nodes.forM (visit setup deeper env) s = .ok () after)
    (way : Site.Below setup.loader False (env.site nodes) next) :
    ∃ inner before after', inner.context.All Value.IsNull ∧ inner.site next.nodes = next ∧
      deeper inner next.nodes before = .ok () after' := by
  have handled {node : Node} (mem : node ∈ nodes) :
      ∃ before after', handle setup deeper env node before = .ok () after' := by
    obtain ⟨before, after', visited⟩ := forM_eq_ok ran mem
    obtain ⟨mid, handled⟩ := handle_of_visit visited
    exact ⟨mid, after', handled⟩
  cases way with
  | children mem =>
    obtain ⟨before, after', handled⟩ := handled mem
    rw [handle, visitSection_of_null null (inverted _ mem)] at handled
    exact ⟨env, before, after', null, rfl, handled⟩
  | returned allowed => exact allowed.elim
  | default mem free =>
    obtain ⟨before, after', handled⟩ := handled mem
    simp only [handle, visitBlock, show env.overrides.resolve? _ = none from free] at handled
    exact ⟨env, before, after', null, rfl, handled⟩
  | @override b override enclosing mem found =>
    obtain ⟨before, after', handled⟩ := handled mem
    simp only [handle, visitBlock, show env.overrides.resolve? _ = some _ from found] at handled
    exact ⟨{ env with overrides := enclosing }, before, after', null, rfl, handled⟩
  | @inclusion node i inner t path mem includes target enter =>
    obtain ⟨before, after', handled⟩ := handled mem
    obtain ⟨t', path', indent, mid, target', enter', ran⟩ := ran_of_includes includes handled
    obtain rfl := Option.some.inj (target'.symm.trans target)
    obtain rfl := Except.ok.inj (enter'.symm.trans enter)
    exact ⟨{ env with overrides := inner, path := path', indent }, mid, after', null, rfl, ran⟩

theorem no_cycle_of_ran (ran : nodes.forM (visit setup deeper env) s = .ok () after) (name : String)
    (path : List String) : ¬ (env.site nodes).Fault setup.loader (.inclusionCycle name path) := by
  intro fault
  obtain ⟨node, i, inner, mem, includes, closed⟩ := fault.enter_of_cycle
  obtain ⟨before, after', visited⟩ := forM_eq_ok ran mem
  obtain ⟨mid, handled⟩ := handle_of_visit visited
  obtain ⟨_, _, _, _, -, entered, -⟩ := ran_of_includes includes handled
  rw [show env.path.enter _ = _ from closed] at entered
  cases entered

/-- By induction on the levels left: a render of empty data that succeeds has taken every way. -/
theorem sound_of_visitAll {room : Nat} (null : env.context.All Value.IsNull)
    (inverted : ∀ levels inner, Site.Descends setup.loader False levels (env.site nodes) inner →
      ∀ t, .sect t ∈ inner.nodes → t.inverted = true)
    (ran : visitAll setup room env nodes s = .ok () after) :
    (env.site nodes).Sound setup.loader room := by
  induction room generalizing env nodes s after with
  | zero =>
    intro levels inner way
    cases way with
    | here => exact ⟨Nat.le_refl _, no_cycle_of_ran ran⟩
    | down first rest =>
      obtain ⟨_, _, _, -, -, below⟩ := ran_of_below null (inverted 0 _ (.here _)) ran first
      cases below
  | succ room ih =>
    intro levels inner way
    cases way with
    | here => exact ⟨Nat.zero_le _, no_cycle_of_ran ran⟩
    | @down levels _ b _ first rest =>
      obtain ⟨env', before, after', null', same, below⟩ :=
        ran_of_below null (inverted 0 _ (.here _)) ran first
      have sound := ih null' (fun levels inner way => by
        rw [same] at way
        exact inverted (levels + 1) inner (.down first way)) below
      rw [same] at sound
      obtain ⟨enough, acyclic⟩ := sound levels inner rest
      exact ⟨Nat.succ_le_succ enough, acyclic⟩

end Render

namespace Site
variable {loader : Loader} {room levels : Nat} {a b : Site}

/-- A placed override is one level below its place. -/
theorem Places.below (loader : Loader) (h : a.Places b) : Below loader False a b := by
  cases h with
  | intro mem found => exact .override mem found

theorem Sound.overrides (h : a.Sound loader room) : a.OverridesSound loader room := by
  intro levels inner placed way places
  have reach : Descends loader False (levels + 1) a placed :=
    way.trans (.down (places.below loader) (.here placed))
  have enough := (h _ _ reach).1
  refine ⟨room - (levels + 1), by omega, fun further deeper rest => ?_⟩
  obtain ⟨most, acyclic⟩ := h _ _ (reach.trans rest)
  exact ⟨by omega, acyclic⟩

theorem not_below_text {path : InclusionPath} {o : Overrides} {text : String} :
    ¬ Below loader False ⟨path, o, [.text text]⟩ b := by
  intro way
  cases way with
  | children mem => cases List.mem_singleton.1 mem
  | returned allowed => exact allowed
  | default mem => cases List.mem_singleton.1 mem
  | override mem => cases List.mem_singleton.1 mem
  | inclusion mem includes =>
    obtain rfl := List.mem_singleton.1 mem
    cases includes

/-- Text alone is sound anywhere. -/
theorem sound_text {path : InclusionPath} {o : Overrides} {text : String} :
    Sound loader room ⟨path, o, [.text text]⟩ := by
  refine sound_of_passes (fun n mem => ?_) fun levels inner placed way places => ?_
  · obtain rfl := List.mem_singleton.1 mem
    exact .text text
  · cases way with
    | here => exact (not_below_text (places.below .empty)).elim
    | down first => exact (not_below_text first).elim

end Site

namespace Engine
variable {e : Engine} {name : String} {t : Template}

/-- No data without lambdas make the partials nest too deep or in a cycle. -/
def Nests (e : Engine) (name : String) : Prop :=
  ∀ (σ : Type) (host : Host σ) (data : Value) (state : σ), data.LambdaFree →
    (∀ inner path, (e.render host name data state).result ≠ .error (.inclusionCycle inner path)) ∧
      ∀ limit, (e.render host name data state).result ≠ .error (.depthExceeded limit)

theorem nests_of_sound (found : e.get? name = some t)
    (sound : (site name t).Sound e.templates.load e.config.maxDepth) : e.Nests name := by
  intro σ host data state free
  have settled {error : Error} (failed : (e.render host name data state).result = .error error) :=
    sound.error_eq (cause_of_render found Value.closed_lambdaFree free failed)
  constructor
  · intro inner path failed
    rcases settled failed with refused | ⟨missing, raised⟩
    · exact refused
    · cases raised
  · intro limit failed
    rcases settled failed with refused | ⟨missing, raised⟩
    · exact refused
    · cases raised

/-- Empty data give a silent host nothing to refuse, unless variables must resolve. -/
theorem not_refuses_null {error : Error} (lenient : e.config.strictVariables = false) :
    ¬ (e.setup Host.silent).Refuses Value.IsNull error := by
  intro refused
  cases error with
  | conversion name found =>
    obtain ⟨value, empty, -, textless⟩ := refused
    obtain rfl : value = .null := empty
    cases textless
  | missingVariable name =>
    have strict : e.config.strictVariables = true := refused
    rw [lenient] at strict
    cases strict
  | cancelled =>
    obtain ⟨state, raised⟩ := refused
    cases raised
  | lambdaFailed | invertedLambda | parse =>
    obtain ⟨l, empty⟩ := refused
    cases empty
  | templateExists | missingTemplate | partialNotFound | inclusionCycle | depthExceeded
  | duplicateBlock => exact refused

theorem render_null (found : e.get? name = some t) (valid : e.validate name = .ok ())
    (lenient : e.config.strictVariables = false) (nests : e.Nests name) :
    ∃ text, (e.render Host.silent name .null ()).result = .ok text := by
  have free : Value.null.LambdaFree := by simp only [Value.LambdaFree]
  obtain ⟨acyclic, shallow⟩ := nests Unit Host.silent .null () free
  cases failed : (e.render Host.silent name .null ()).result with
  | ok text => exact ⟨text, rfl⟩
  | error error =>
    exfalso
    cases cause_of_render found Value.closed_isNull rfl failed with
    | data refused => exact not_refuses_null lenient refused
    | site within way fault =>
      rcases fault.error_eq with ⟨missing, rfl⟩ | ⟨inner, entered, rfl⟩
      · exact partials_of_validate found valid free missing failed
      · exact acyclic _ _ failed
    | depth way => exact shallow _ failed

/-- What passes the check is sound exactly if the overrides are in their places, and what is sound
nests well. Without upright sections, and unless variables must resolve, nothing else does. -/
theorem nests_of_validate (found : e.get? name = some t) (valid : e.validate name = .ok ()) :
    ((site name t).Sound e.templates.load e.config.maxDepth ↔
      (site name t).OverridesSound e.templates.load e.config.maxDepth) ∧
    ((site name t).OverridesSound e.templates.load e.config.maxDepth → e.Nests name) ∧
    (e.config.strictVariables = false →
      (∀ levels inner, Site.Descends e.templates.load False levels (site name t) inner →
        ∀ s, .sect s ∈ inner.nodes → s.inverted = true) →
      e.Nests name → (site name t).OverridesSound e.templates.load e.config.maxDepth) := by
  have passes := passes_of_validate found valid
  refine ⟨⟨Site.Sound.overrides, Site.sound_of_passes passes⟩, fun placed => ?_, ?_⟩
  · exact nests_of_sound found (Site.sound_of_passes passes placed)
  · intro lenient inverted nests
    obtain ⟨text, rendered⟩ := render_null found valid lenient nests
    unfold render at rendered
    rw [found] at rendered
    obtain ⟨after, ran, -⟩ := Renderer.run_eq_ok rendered
    have null : (Context.ofRoot .null).All Value.IsNull := Context.All.ofRoot rfl
    have sound := Render.sound_of_visitAll null inverted ran
    exact Site.Sound.overrides sound

/-- A layout with one block, and a page that fills it. -/
def layered (content : List Node) : Engine :=
  ⟨[("lay", ⟨some "lay", "", [.block ⟨"main", []⟩]⟩),
    ("page", ⟨some "page", "", [.parent (.named "lay") [⟨"main", content⟩]]⟩)], .standard⟩

/-- The layout is not on the path where the override is declared, but it is where it is placed. -/
theorem layered_cycle :
    (layered [.inclusion (.named "lay")]).validate "page" = .ok () ∧
      ((layered [.inclusion (.named "lay")]).render Host.silent "page" .null ()).result =
        .error (.inclusionCycle "lay" ["page", "lay", "lay"]) := by
  constructor <;> rfl

/-- Below the page there is only the layout, with the override in force. -/
theorem layered_down {content : List Node} {b : Site}
    (way : Site.Below (layered content).templates.load False
      ⟨.rooted "page", .empty, [.parent (.named "lay") [⟨"main", content⟩]]⟩ b) :
    b = ⟨⟨["page", "lay"]⟩, ⟨[[⟨"main", content⟩]]⟩, [.block ⟨"main", []⟩]⟩ := by
  cases way with
  | children mem => cases List.mem_singleton.1 mem
  | returned allowed => exact allowed.elim
  | default mem => cases List.mem_singleton.1 mem
  | override mem => cases List.mem_singleton.1 mem
  | inclusion mem includes target enter =>
    obtain rfl := List.mem_singleton.1 mem
    cases includes
    obtain rfl := Option.some.inj target
    obtain rfl := Except.ok.inj enter
    rfl

/-- Below the layout there is only the content of the override. -/
theorem layered_placed {content : List Node} {b : Site}
    (way : Site.Below (layered content).templates.load False
      ⟨⟨["page", "lay"]⟩, ⟨[[⟨"main", content⟩]]⟩, [.block ⟨"main", []⟩]⟩ b) :
    b = ⟨⟨["page", "lay"]⟩, .empty, content⟩ := by
  cases way with
  | children mem => cases List.mem_singleton.1 mem
  | returned allowed => exact allowed.elim
  | default mem free =>
    obtain rfl := Node.block.inj (List.mem_singleton.1 mem)
    cases free
  | override mem found =>
    obtain rfl := Node.block.inj (List.mem_singleton.1 mem)
    obtain ⟨rfl, rfl⟩ := Prod.mk.inj (Option.some.inj found)
    rfl
  | inclusion mem includes =>
    obtain rfl := List.mem_singleton.1 mem
    cases includes

theorem layered_nests : (layered [.text "x"]).Nests "page" := by
  have valid : (layered [.text "x"]).validate "page" = .ok () := by rfl
  refine (nests_of_validate rfl valid).2.1 fun levels inner placed way places => ?_
  cases way with
  | here =>
    cases places with
    | intro mem => cases List.mem_singleton.1 mem
  | down first rest =>
    obtain rfl := layered_down first
    cases rest with
    | here =>
      obtain rfl := layered_placed (places.below _)
      exact ⟨126, rfl, Site.sound_text⟩
    | down first rest =>
      obtain rfl := layered_placed first
      cases rest with
      | here => exact (Site.not_below_text (places.below .empty)).elim
      | down first => exact (Site.not_below_text first).elim

end Engine

end Mustache
