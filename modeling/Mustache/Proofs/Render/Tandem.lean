import Mustache.Proofs.Render.Lockstep

/-! Two renders in tandem. They may differ in their surroundings and in their nodes. If the handlers
of corresponding nodes do alike and go down to places that correspond again, node by node, then the
first render leads the second. What is kept between their states may depend on the indent. -/
namespace Mustache
open List (Forall₂)

/-- Values that are treated alike: the same value, or two maps. There are no lambdas among them
unless `lambdas` holds. -/
structure Value.Kin (lambdas : Prop) (v : Value → Value → Prop) : Prop where
  value {x y : Value} (h : v x y) : x = y ∨ ∃ es fs, x = .map es ∧ y = .map fs
  item {items : List Value} {item : Value} (h : v (.list items) (.list items))
    (mem : item ∈ items) : v item item
  lambda {l : Lambda} (h : v (.lambda l) (.lambda l)) : lambdas

theorem Value.Kin.shape_eq {lambdas : Prop} {v : Value → Value → Prop} {x y : Value}
    (kin : Kin lambdas v) (h : v x y) : x.shape = y.shape := by
  rcases kin.value h with rfl | ⟨es, fs, rfl, rfl⟩
  · rfl
  · simp only [Value.shape]

/-- A text that a variable may come to: the one of its value, or any that a lambda returns. -/
def Value.Shows (value : Value) (text : String) : Prop :=
  value.text? = some text ∨ ∃ l, value = .lambda l

/-- What stands in the place of a block, and the overrides in force there. -/
def Overrides.content (o : Overrides) (b : Block) : Block × Overrides :=
  (o.resolve? b.name).getD (b, o)

/-- The surroundings of the content of a block. -/
def Env.atContent (env : Env) (b : Block) : Env :=
  { env with overrides := (env.overrides.content b).2 }

/-- The surroundings inside of a partial. -/
def Env.inside (env : Env) (i : Inclusion) (path : InclusionPath) : Env :=
  { env with path, indent := env.indent ++ i.indent }

namespace Render
variable {σ τ : Type}

theorem visitBlock_eq (deeper : Deeper σ) (env : Env) (b : Block) :
    visitBlock deeper env b =
      deeper (env.atContent b) (env.overrides.content b).1.children := by
  unfold visitBlock Env.atContent Overrides.content
  cases env.overrides.resolve? b.name <;> rfl

/-- What is written for the text of a variable. -/
def shown (escaped : Bool) (text : String) : String :=
  if escaped then Text.escapeHtml text else text

/-- Relations between the states of two renders, one for each indent of the first. -/
abbrev Relations (σ τ : Type) := String → RenderState σ → RenderState τ → Prop

/-- The same state, under any indent. -/
abbrev Same (σ : Type) : Relations σ σ := fun _ s s' => s = s'

/-- Places that correspond: surroundings, and the nodes to be rendered in them. -/
abbrev Places := Env → List Node → Env → List Node → Prop

/-- What holds of related states when the first render writes one piece and the second another. -/
def Keeps (rel after : RenderState σ → RenderState τ → Prop) (piece piece' : Write) : Prop :=
  ∀ (s : RenderState σ) (s' : RenderState τ), rel s s' →
    after { s with writes := piece :: s.writes } { s' with writes := piece' :: s'.writes }

/-- What two renders in tandem need of their setups: the same templates, settings of which those of
the second ask for no more, and hosts that are asked alike. What holds inside of an indented partial
holds behind it. -/
structure Tandem (lambdas : Prop) (lost : Error → Prop) (setup : Setup σ) (setup' : Setup τ)
    (rel : Relations σ τ) : Prop where
  loader : setup.loader = setup'.loader
  config : setup.config.Leads lost setup'.config
  flag {indent : String} {s : RenderState σ} {s' : RenderState τ} (related : rel indent s s') :
    setup.host.cancelled s.host = setup'.host.cancelled s'.host
  loaded {indent : String} {s : RenderState σ} {s' : RenderState τ} (related : rel indent s s')
    (name : String) :
    rel indent { s with requests := .load name :: s.requests }
      { s' with requests := .load name :: s'.requests }
  behind {indent inner : String} {s : RenderState σ} {s' : RenderState τ}
    (related : rel (indent ++ inner) s s') : rel indent s s'
  lock (allowed : lambdas) : ∃ base, rel = (fun _ => base) ∧
    setup.host.Lockstep setup'.host base

end Render

section Meeting
open Render
variable {σ τ : Type} (loader : Loader) (lambdas : Prop) (lost : Error → Prop)
  (v : Value → Value → Prop) (rel : Relations σ τ) (places : Places) (a b : Env)

/-- Templates whose nodes correspond once a partial has been entered on both sides. -/
def Inclusion.Enters (i i' : Inclusion) (t t' : Template) : Prop :=
  ∀ path path' : InclusionPath, a.path.enter i.name = .ok path →
    b.path.enter i'.name = .ok path' → path.Leads lost path' →
    places (a.inside i path) t.nodes (b.inside i' path') t'.nodes

/-- Partials under one name that lead to places that correspond. -/
structure Inclusion.Meets (i i' : Inclusion) : Prop where
  name : i.name = i'.name
  indent : i.indent = i'.indent
  path : a.path.Leads lost b.path
  opened (indented : i.indent ≠ "") :
    Keeps (rel a.indent) (rel (a.indent ++ i.indent)) .openLine .openLine
  target : Option.Rel (Enters lost places a b i i') i.target i'.target
  loaded {t : Template} (missing : i.target = none) (found : loader i.name = some t) :
    Enters lost places a b i i' t t

variable {loader lost rel places a b} in
/-- A partial meets itself where it leads to places that correspond, settled or looked up. -/
theorem Inclusion.Meets.of_enters {i : Inclusion} (path : a.path.Leads lost b.path)
    (opened : i.indent ≠ "" → Keeps (rel a.indent) (rel (a.indent ++ i.indent)) .openLine .openLine)
    (enters : ∀ {t}, loader.target? i = some t → i.Enters lost places a b i t t) :
    i.Meets loader lost rel places a b i := by
  refine ⟨rfl, rfl, path, opened, ?_, fun missing found => ?_⟩
  · cases settled : i.target with
    | none => exact .none
    | some t => exact .some (enters (by rw [Loader.target?, settled]))
  · exact enters (by rw [Loader.target?, missing, found])

/-- Sections over values that are treated alike, with children that correspond in every frame. -/
structure Section.Meets (s s' : Section) : Prop where
  name : s.name = s'.name
  inverted : s.inverted = s'.inverted
  found : Option.Rel v (a.context.resolve? s.name) (b.context.resolve? s'.name)
  children : places a s.children b s'.children
  framed {x y : Value} (related : v x y) :
    places (a.pushFrame x) s.children (b.pushFrame y) s'.children
  body (allowed : lambdas) : s.body.text = s'.body.text ∧ s.body.delimiters = s'.body.delimiters
  returned (allowed : lambdas) {text : String} {d : Delimiters} {t : Template}
    (parsed : Template.parseWith d text = .ok t) : places a t.nodes b t.nodes

/-- Nodes whose handlers do alike in their surroundings, and go down to places that correspond. -/
inductive Node.Meets : Node → Node → Prop
  | text {t : String}
    (written : Keeps (rel a.indent) (rel a.indent) (.text a.indent t) (.text b.indent t)) :
    Meets (.text t) (.text t)
  | interpolation {name : String} {escaped : Bool}
    (found : Option.Rel v (a.context.resolve? name) (b.context.resolve? name))
    (written : ∀ {x text}, a.context.resolve? name = some x → x.Shows text →
      Keeps (rel a.indent) (rel a.indent) (.value a.indent text (shown escaped text))
        (.value b.indent text (shown escaped text)))
    (returned : lambdas → ∀ {text d t}, Template.parseWith d text = .ok t →
      places { a with indent := "" } t.nodes { b with indent := "" } t.nodes) :
    Meets (.interpolation name escaped) (.interpolation name escaped)
  | sect {s s' : Section} (h : Section.Meets lambdas v places a b s s') :
    Meets (.sect s) (.sect s')
  | inclusion {i i' : Inclusion} (h : Inclusion.Meets loader lost rel places a b i i') :
    Meets (.inclusion i) (.inclusion i')
  | parent {i i' : Inclusion} {scope scope' : List Block}
    (h : Inclusion.Meets loader lost rel places
      { a with overrides := a.overrides.push scope }
      { b with overrides := b.overrides.push scope' } i i') :
    Meets (.parent i scope) (.parent i' scope')
  | block {c c' : Block}
    (h : places (a.atContent c) (a.overrides.content c).1.children
      (b.atContent c') (b.overrides.content c').1.children) :
    Meets (.block c) (.block c')

end Meeting

namespace Render
variable {σ τ : Type}

/-- Behind a line that both open, another relation may hold, and the former one again at the end. -/
theorem Leads.opening {rel inner : RenderState σ → RenderState τ → Prop} {lost : Error → Prop}
    {first : RenderM σ Unit} {second : RenderM τ Unit}
    (opened : Keeps rel inner .openLine .openLine) (h : Leads inner lost first second)
    (behind : ∀ {s s'}, inner s s' → rel s s') :
    Leads rel lost (Render.write .openLine >>= fun _ => first)
      (Render.write .openLine >>= fun _ => second) := by
  intro s s' related
  have steps := h _ _ (opened s s' related)
  have wrote {υ : Type} (step : RenderM υ Unit) (t : RenderState υ) :
      (Render.write .openLine >>= fun _ => step) t =
        step { t with writes := .openLine :: t.writes } := rfl
  rw [wrote, wrote]
  cases ran : first { s with writes := .openLine :: s.writes } with
  | ok a t =>
    rw [ran] at steps
    obtain ⟨t', ran', related'⟩ := steps
    exact ⟨t', ran', behind related'⟩
  | error error t =>
    rw [ran] at steps
    exact steps.imp_right fun ⟨t', ran', related'⟩ => ⟨t', ran', behind related'⟩

/-- One level down the first leads the second, wherever places correspond. -/
def Deeper.Follows (lost : Error → Prop) (rel : Relations σ τ) (places : Places)
    (deeper : Deeper σ) (deeper' : Deeper τ) : Prop :=
  ∀ (a : Env) (nodes : List Node) (b : Env) (nodes' : List Node), places a nodes b nodes' →
    Leads (rel a.indent) lost (deeper a nodes) (deeper' b nodes')

theorem shows_of_interpolated {setup : Setup σ} {deeper : Deeper σ} {env : Env} {name : String}
    {value : Value} {s t : RenderState σ} {text : String}
    (h : interpolated setup deeper env name value s = .ok text t) : value.Shows text := by
  cases value with
  | lambda l => exact .inr ⟨l, rfl⟩
  | list | map => cases h
  | null | bool | int | float | str =>
    obtain ⟨rfl, -⟩ := EStateM.Result.ok.inj h
    exact .inl rfl

variable {lambdas : Prop} {lost : Error → Prop} {setup : Setup σ} {setup' : Setup τ}
  {rel : Relations σ τ} {v : Value → Value → Prop} {places : Places}

section Handlers
variable {deeper : Deeper σ} {deeper' : Deeper τ} {a b : Env}
  (tandem : Tandem lambdas lost setup setup' rel) (kin : Value.Kin lambdas v)
  (hd : Deeper.Follows lost rel places deeper deeper')
include hd

theorem meets_renderReturned {d d' : Delimiters} (same : d = d')
    (returned : ∀ {text d t}, Template.parseWith d text = .ok t → places a t.nodes b t.nodes)
    (text : String) :
    Leads (rel a.indent) lost (renderReturned deeper a text d)
      (renderReturned deeper' b text d') := by
  unfold renderReturned
  rw [← same]
  cases parsed : Template.parseWith d text with
  | ok t => exact hd _ _ _ _ (returned parsed)
  | error error => exact .throw _

include tandem

theorem meets_visitInverted {s s' : Section} (h : s.Meets lambdas v places a b s')
    (shape : Shape) :
    Leads (rel a.indent) lost (visitInverted setup deeper a s shape)
      (visitInverted setup' deeper' b s' shape) := by
  unfold visitInverted
  cases shape with
  | falsey => exact hd _ _ _ _ h.children
  | scalar | sequence => exact .pure _
  | renderable =>
    rcases tandem.config.inverted with same | ⟨reject, gone⟩
    · rw [← same, h.name]
      cases setup.config.invertedLambda with
      | reject => exact .throw _
      | truthy => exact .pure _
      | falsey => exact hd _ _ _ _ h.children
    · rw [reject]
      exact .of_lost (gone _) _

theorem meets_visitTemplate {i i' : Inclusion}
    (h : i.Meets setup.loader lost rel places a b i') {t t' : Template}
    (nodes : i.Enters lost places a b i' t t') :
    Leads (rel a.indent) lost (visitTemplate deeper a i t) (visitTemplate deeper' b i' t') := by
  unfold visitTemplate
  have name := h.name
  rw [← name, ← h.indent]
  rcases h.path.enter i.name with ⟨p, p', entered, entered', path⟩ | ⟨error, failed, failed'⟩
  · have inside := hd _ _ _ _ (nodes p p' entered (name ▸ entered') path)
    unfold Env.inside at inside
    rw [← h.indent] at inside
    rw [entered, entered']
    dsimp only
    split
    · rename_i flush
      have none : i.indent = "" := String.isEmpty_iff.1 flush
      simpa only [none, String.append_empty] using inside
    · rename_i indented
      refine .opening (h.opened fun none => ?_) inside fun related => tandem.behind related
      exact indented (String.isEmpty_iff.2 none)
  · rw [failed]
    rcases failed' with gone | failed'
    · exact .of_lost gone _
    · rw [failed']
      exact .throw _

theorem meets_visitInclusion {i i' : Inclusion}
    (h : i.Meets setup.loader lost rel places a b i') :
    Leads (rel a.indent) lost (visitInclusion setup deeper a i)
      (visitInclusion setup' deeper' b i') := by
  have targets := h.target
  rw [visitInclusion_eq, visitInclusion_eq]
  unfold Render.target
  cases settled : i.target with
  | none =>
    cases settled' : i'.target with
    | some t' =>
      rw [settled, settled'] at targets
      cases targets
    | none =>
      rw [← h.name]
      refine .bind_of_ok (.load tandem.loader fun related => tandem.loaded related _) fun ran => ?_
      exact meets_visitTemplate tandem hd h (h.loaded settled (loader_of_load ran))
  | some t =>
    cases settled' : i'.target with
    | none =>
      rw [settled, settled'] at targets
      cases targets
    | some t' =>
      rw [settled, settled'] at targets
      cases targets with
      | some nodes => exact meets_visitTemplate tandem hd h nodes

include kin

theorem meets_interpolated {name : String} {x y : Value} (related : v x y)
    (returned : lambdas → ∀ {text d t}, Template.parseWith d text = .ok t →
      places { a with indent := "" } t.nodes { b with indent := "" } t.nodes) :
    Leads (rel a.indent) lost (interpolated setup deeper a name x)
      (interpolated setup' deeper' b name y) := by
  -- two maps are refused alike, whatever they hold
  rcases kin.value related with rfl | ⟨es, fs, rfl, rfl⟩
  · cases x with
    | lambda l =>
      have allowed := kin.lambda related
      obtain ⟨base, rfl, lock⟩ := tandem.lock allowed
      refine .bind (.invoke lock name l "") fun text => .capture lock ?_
      exact meets_renderReturned (a := { a with indent := "" }) hd rfl (returned allowed) text
    | null | bool | int | float | str => exact .pure _
    | list | map => exact .throw _
  · exact .throw _

theorem meets_visitUpright {s s' : Section} (h : s.Meets lambdas v places a b s') {x y : Value}
    (related : v x y) :
    Leads (rel a.indent) lost (visitUpright setup deeper a s x)
      (visitUpright setup' deeper' b s' y) := by
  have framed {x y : Value} (related : v x y) : Leads (rel a.indent) lost
      (deeper (a.pushFrame x) s.children) (deeper' (b.pushFrame y) s'.children) :=
    hd _ _ _ _ (h.framed related)
  have scalar {x y : Value} (related : v x y) : Leads (rel a.indent) lost
      (if x.shape = .falsey then pure () else deeper (a.pushFrame x) s.children)
      (if y.shape = .falsey then pure () else deeper' (b.pushFrame y) s'.children) := by
    rw [kin.shape_eq related]
    split
    · exact .pure _
    · exact framed related
  rcases kin.value related with rfl | ⟨es, fs, rfl, rfl⟩
  · cases x with
    | list items => exact .forM (List.forall₂_same.2 fun item mem => framed (kin.item related mem))
    | lambda l =>
      have allowed := kin.lambda related
      obtain ⟨text, delimiters⟩ := h.body allowed
      obtain ⟨base, rfl, lock⟩ := tandem.lock allowed
      unfold visitUpright
      rw [← h.name, ← text]
      refine .bind (.invoke lock s.name l s.body.text) fun text => ?_
      exact meets_renderReturned hd delimiters (h.returned allowed) text
    | null | bool | int | float | str | map => exact scalar related
  · exact scalar related

/-- One case for each kind of node. -/
theorem meets_visit {n n' : Node}
    (h : n.Meets setup.loader lambdas lost v rel places a b n') :
    Leads (rel a.indent) lost (visit setup deeper a n) (visit setup' deeper' b n') := by
  rw [visit_eq, visit_eq]
  refine .bind (.checkCancelled tandem.flag) fun _ => ?_
  cases h with
  | text written => exact .write fun related => written _ _ related
  | inclusion h => exact meets_visitInclusion tandem hd h
  | parent h => exact meets_visitInclusion tandem hd h
  | block h =>
    change Leads _ _ (visitBlock deeper a _) (visitBlock deeper' b _)
    rw [visitBlock_eq, visitBlock_eq]
    exact hd _ _ _ _ h
  | @interpolation name escaped found written returned =>
    change Leads _ _ (visitInterpolation setup deeper a name escaped)
      (visitInterpolation setup' deeper' b name escaped)
    unfold visitInterpolation
    cases here : a.context.resolve? name with
    | none =>
      rw [here] at found
      generalize b.context.resolve? name = y at found ⊢
      cases found
      rcases tandem.config.strict with same | ⟨lenient, gone⟩
      · rw [← same]
        dsimp only
        split
        · exact .throw _
        · exact .pure _
      · rw [lenient]
        dsimp only
        split
        · exact .of_lost (gone name) _
        · exact .pure _
    | some x =>
      rw [here] at found
      generalize b.context.resolve? name = y at found ⊢
      cases found with
      | some related =>
        refine .bind_of_ok (meets_interpolated tandem kin hd related returned) fun ran => ?_
        exact .write fun related => written here (shows_of_interpolated ran) _ _ related
  | @sect s s' h =>
    have found := h.found
    change Leads _ _ (visitSection setup deeper a s) (visitSection setup' deeper' b s')
    unfold visitSection
    rw [← h.inverted]
    generalize a.context.resolve? s.name = x at found ⊢
    generalize b.context.resolve? s'.name = y at found ⊢
    cases found with
    | none =>
      dsimp only
      split
      · exact meets_visitInverted tandem hd h _
      · exact .pure _
    | some related =>
      dsimp only
      split
      · rw [kin.shape_eq related]
        exact meets_visitInverted tandem hd h _
      · exact meets_visitUpright tandem kin hd h related

end Handlers

/-- By induction on the levels left, for places whose nodes meet one by one. The render that leads
may have fewer levels, if going too deep is lost. -/
theorem follows_descend (tandem : Tandem lambdas lost setup setup' rel)
    (kin : Value.Kin lambdas v)
    (meets : ∀ {a b nodes nodes'}, places a nodes b nodes' →
      Forall₂ (Node.Meets setup.loader lambdas lost v rel places a b) nodes nodes')
    {room room' : Nat} (levels : setup.config.Levels lost setup'.config room room') :
    Deeper.Follows lost rel places (descend setup room) (descend setup' room') := by
  induction room generalizing room' with
  | zero =>
    intro a b nodes nodes' _
    rcases levels with ⟨rfl, limit⟩ | ⟨-, gone⟩
    · simp only [descend, limit]
      exact .throw _
    · exact .of_lost gone _
  | succ room ih =>
    intro a b nodes nodes' related
    obtain ⟨room', rfl⟩ := Nat.exists_eq_add_of_le' levels.le
    have below : Deeper.Follows lost rel places (descend setup room)
        (descend setup' (room' + room)) := ih (Config.Levels.succ_iff.1 levels)
    exact .forM ((meets related).imp fun _ _ h => meets_visit tandem kin below h)

end Render
end Mustache
