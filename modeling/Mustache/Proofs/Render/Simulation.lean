import Mustache.Proofs.Render.Tandem

/-! A render that leads another. The other may be allowed more: more levels, milder settings, a
shorter path. It does what the first does, step by step, up to where the first fails for a reason
that is lost on it. -/
namespace Mustache
open List (Forall₂)

theorem Context.Matching.kin {names : String → Prop} {lambdas : Prop}
    {r : Context → Context → Prop} {v : Value → Value → Prop} (m : Matching names lambdas r v) :
    Value.Kin lambdas v := ⟨m.value, m.item, m.lambda⟩

namespace Render
variable {σ τ : Type} {rel : RenderState σ → RenderState τ → Prop} {lost : Error → Prop}

/-- One level down the first leads the second. -/
def Deeper.Leads (rel : RenderState σ → RenderState τ → Prop) (lost : Error → Prop)
    (r : Context → Context → Prop) (q : List Node → List Node → Prop) (deeper : Deeper σ)
    (deeper' : Deeper τ) : Prop :=
  ∀ {a b : Env} {nodes nodes' : List Node}, a.Leads lost r q b → q nodes nodes' →
    Render.Leads rel lost (deeper a nodes) (deeper' b nodes')

/-- Places with surroundings of which one leads the other, and related nodes. -/
def Related (lost : Error → Prop) (r : Context → Context → Prop)
    (q : List Node → List Node → Prop) : Places :=
  fun a nodes b nodes' => a.Leads lost r q b ∧ q nodes nodes'

variable {names : String → Prop} {lambdas : Prop} {r : Context → Context → Prop}
  {v : Value → Value → Prop} {q : List Node → List Node → Prop} {setup : Setup σ}
  {setup' : Setup τ} (lock : setup.host.Lockstep setup'.host rel)

theorem tandem_of_lockstep (lambdas : Prop) (lock : setup.host.Lockstep setup'.host rel)
    (config : setup.config.Leads lost setup'.config) (loader : setup.loader = setup'.loader) :
    Tandem lambdas lost setup setup' (fun _ => rel) where
  loader := loader
  config := config
  flag related := lock.cancelled related
  loaded related name := lock.loaded related name
  behind related := related
  lock _ := ⟨rel, rfl, lock⟩

include lock in
theorem keeps_of_lockstep (piece : Write) : Keeps rel rel piece piece := by
  intro s s' related
  rw [← lock.writes related]
  exact lock.written related _

section Meeting
variable {loader : Loader} {a b : Env} (m : Context.Matching names lambdas r v)
  (returned : ∀ {text d t}, lambdas → Template.parseWith d text = .ok t → q t.nodes t.nodes)
  (env : a.Leads lost r q b)
include env

theorem related_atContent {c c' : Block} (h : c.Congruent q c') :
    Related lost r q (a.atContent c) (a.overrides.content c).1.children
      (b.atContent c') (b.overrides.content c').1.children := by
  have found := Overrides.related_of_find? env.overrides (fun _ _ h => h.name) c.name
  unfold Env.atContent Overrides.content Overrides.resolve?
  rw [h.name]
  generalize Overrides.find? c.name a.overrides.scopes = x at found ⊢
  generalize Overrides.find? c.name b.overrides.scopes = y at found ⊢
  cases found with
  | none => exact ⟨env, h.children⟩
  -- the content of an override is rendered outside of the scope it was found in
  | some related =>
    obtain ⟨content, enclosing⟩ := related
    exact ⟨⟨env.context, enclosing, env.path, env.indent⟩, content.children⟩

include lock in
theorem meets_of_inclusion {i i' : Inclusion} (h : i.Congruent loader q i') :
    i.Meets loader lost (fun _ => rel) (Related lost r q) a b i' := by
  have inside {t t' : Template} (nodes : q t.nodes t'.nodes) :
      i.Enters lost (Related lost r q) a b i' t t' := by
    intro path path' _ _ leads
    exact ⟨⟨env.context, env.overrides, leads, by rw [Env.inside, Env.inside, env.indent, h.indent]⟩,
      nodes⟩
  refine ⟨h.name, h.indent, env.path, fun _ => keeps_of_lockstep lock _, ?_, ?_⟩
  · have target := h.target
    generalize i.target = x at target ⊢
    generalize i'.target = y at target ⊢
    cases target with
    | none => exact .none
    | some nodes => exact .some (inside nodes)
  · exact fun missing found => inside (h.loaded missing found)

include m returned in
theorem meets_of_section {s s' : Section} (h : s.Congruent names q s') :
    s.Meets lambdas v (Related lost r q) a b s' where
  name := h.name
  inverted := h.inverted
  found := h.name ▸ m.resolve env.context h.known
  children := ⟨env, h.children⟩
  framed related := ⟨⟨m.push env.context related, env.overrides, env.path, env.indent⟩, h.children⟩
  body _ := ⟨h.text, h.delimiters⟩
  returned allowed _ _ _ parsed := ⟨env, returned allowed parsed⟩

include lock m returned in
/-- One case for each kind of node. -/
theorem meets_of_congruent {n n' : Node} (h : n.Congruent loader names q n') :
    n.Meets loader lambdas lost v (fun _ => rel) (Related lost r q) a b n' := by
  cases h with
  | text text =>
    refine .text ?_
    rw [env.indent]
    exact keeps_of_lockstep lock _
  | interpolation known escaped =>
    refine .interpolation (m.resolve env.context known) (fun _ _ => ?_) fun allowed _ _ _ parsed => ?_
    · rw [env.indent]
      exact keeps_of_lockstep lock _
    · exact ⟨⟨env.context, env.overrides, env.path, rfl⟩, returned allowed parsed⟩
  | sect h => exact .sect (meets_of_section m returned env h)
  | inclusion h => exact .inclusion (meets_of_inclusion lock env h)
  | @parent _ _ scope scope' h blocks =>
    have pushed : Env.Leads lost r q { a with overrides := a.overrides.push scope }
        { b with overrides := b.overrides.push scope' } :=
      ⟨env.context, .cons blocks env.overrides, env.path, env.indent⟩
    exact .parent (meets_of_inclusion lock pushed h)
  | block h => exact .block (related_atContent env h)

end Meeting

section Runs
variable (config : setup.config.Leads lost setup'.config) (loader : setup.loader = setup'.loader)
include lock config loader

theorem leads_visit {deeper : Deeper σ} {deeper' : Deeper τ} {a b : Env}
    (m : Context.Matching names lambdas r v)
    (returned : ∀ {text d t}, lambdas → Template.parseWith d text = .ok t → q t.nodes t.nodes)
    (hd : Deeper.Leads rel lost r q deeper deeper') (env : a.Leads lost r q b) {n n' : Node}
    (h : n.Congruent setup.loader names q n') :
    Leads rel lost (visit setup deeper a n) (visit setup' deeper' b n') := by
  have tandem := tandem_of_lockstep lambdas lock config loader
  have below : Deeper.Follows lost (fun _ => rel) (Related lost r q) deeper deeper' :=
    fun _ _ _ _ related => hd related.1 related.2
  exact meets_visit tandem m.kin below (meets_of_congruent lock m returned env h)

/-- By induction on the levels left, for lists that are related node by node. The render that leads
may have fewer levels, if going too deep is lost. -/
theorem leads_descend (m : Context.Matching names lambdas r v)
    (returned : ∀ {text d t}, lambdas → Template.parseWith d text = .ok t → q t.nodes t.nodes)
    (nodewise : ∀ {nodes nodes'}, q nodes nodes' →
      Forall₂ (Node.Congruent setup.loader names q) nodes nodes') {room room' : Nat}
    (levels : setup.config.Levels lost setup'.config room room') :
    Deeper.Leads rel lost r q (descend setup room) (descend setup' room') := by
  have tandem := tandem_of_lockstep lambdas lock config loader
  have steps : Deeper.Follows lost (fun _ => rel) (Related lost r q) (descend setup room)
      (descend setup' room') := by
    refine follows_descend tandem m.kin (fun related => ?_) levels
    exact (nodewise related.2).imp fun _ _ h => meets_of_congruent lock m returned related.1 h
  intro a b nodes nodes' env related
  exact steps _ _ _ _ ⟨env, related⟩

/-- The same nodes in the same contexts. -/
theorem leads_visitAll {room room' : Nat}
    (levels : setup.config.Levels lost setup'.config room room') {a b : Env}
    (env : a.Leads lost (· = ·) (· = ·) b) (nodes : List Node) :
    Leads rel lost (visitAll setup room a nodes) (visitAll setup' room' b nodes) := by
  have nodewise {nodes nodes' : List Node} (same : nodes = nodes') :
      Forall₂ (Node.Congruent setup.loader (fun _ => True) (· = ·)) nodes nodes' := by
    subst same
    exact List.forall₂_same.2 fun n _ => n.congruent_refl fun _ => rfl
  have steps : Deeper.Leads rel lost (· = ·) (· = ·) (descend setup (room + 1))
      (descend setup' (room' + 1)) :=
    leads_descend lock config loader Context.matching_eq (fun _ _ => rfl) nodewise
      (Config.Levels.succ_iff.2 levels)
  exact steps env rfl

/-- By induction on the levels left, for places that are the same on both sides, or whose nodes meet
one by one. -/
theorem follows_of_same_or_meets {places : Places} (kin : Value.Kin lambdas v)
    (meets : ∀ {a b nodes nodes'}, places a nodes b nodes' → (a = b ∧ nodes = nodes') ∨
      Forall₂ (Node.Meets setup.loader lambdas lost v (fun _ => rel) places a b) nodes nodes')
    {room room' : Nat} (levels : setup.config.Levels lost setup'.config room room') :
    Deeper.Follows lost (fun _ => rel) places (descend setup room) (descend setup' room') := by
  have tandem := tandem_of_lockstep lambdas lock config loader
  induction room generalizing room' with
  | zero =>
    intro a nodes b nodes' _
    rcases levels with ⟨rfl, limit⟩ | ⟨-, gone⟩
    · simp only [descend, limit]
      exact .throw _
    · exact .of_lost gone _
  | succ room ih =>
    intro a nodes b nodes' place
    obtain ⟨room', rfl⟩ := Nat.exists_eq_add_of_le' levels.le
    have levels := Config.Levels.succ_iff.1 levels
    rcases meets place with ⟨rfl, rfl⟩ | here
    · exact leads_visitAll lock config loader levels (Env.leads_refl (fun _ => rfl) _ _) _
    · exact .forM (here.imp fun _ _ h => meets_visit tandem kin (ih levels) h)

end Runs

end Render

variable {σ : Type} {rel : RenderState σ → RenderState σ → Prop} {lost : Error → Prop}

/-- Renderers that end alike, unless the first fails for a reason that is lost. -/
theorem Renderer.accept_of_ends {r r' : Renderer σ} {nodes nodes' : List Node}
    (h : Render.Ends rel lost (Render.visitAll r.setup r.room r.env nodes r.state)
      (Render.visitAll r'.setup r'.room r'.env nodes' r'.state)) :
    (∃ error, (r.accept nodes).1 = .error error ∧ lost error) ∨
      (r'.accept nodes').1 = (r.accept nodes).1 ∧
        rel (r.accept nodes).2.state (r'.accept nodes').2.state := by
  unfold accept
  cases ran : Render.visitAll r.setup r.room r.env nodes r.state with
  | ok a t =>
    rw [ran] at h
    obtain ⟨t', ran', related⟩ := h
    rw [ran']
    exact .inr ⟨rfl, related⟩
  | error error t =>
    rw [ran] at h
    rcases h with gone | ⟨t', ran', related⟩
    · exact .inl ⟨error, rfl, gone⟩
    · rw [ran']
      exact .inr ⟨rfl, related⟩

/-- A whole render that is led by another comes to the same, unless the other fails for a reason
that is lost. -/
theorem Renderer.run_of_leads {r r' : Renderer σ} {nodes nodes' : List Node}
    (shown : ∀ {s s' : RenderState σ}, rel s s' → s.writes = s'.writes)
    (h : Render.Leads rel lost (Render.visitAll r.setup r.room r.env nodes)
      (Render.visitAll r'.setup r'.room r'.env nodes')) (related : rel r.state r'.state) :
    (∃ error, (r.run nodes).result = .error error ∧ lost error) ∨
      (r'.run nodes').result = (r.run nodes).result ∧
        rel (r.run nodes).state (r'.run nodes').state := by
  simp only [run]
  rcases accept_of_ends (h.ends related) with ⟨error, failed, gone⟩ | ⟨result, same⟩
  · rw [failed]
    exact .inl ⟨error, rfl, gone⟩
  · rw [result]
    refine .inr ⟨?_, same⟩
    simp only [output, RenderState.output, shown same]

theorem Template.render_of_leads {t t' : Template} {setup setup' : Setup σ} (data : Value)
    (host : σ) (name : t.name = t'.name)
    (shown : ∀ {s s' : RenderState σ}, rel s s' → s.writes = s'.writes)
    (h : ∀ env, Render.Leads rel lost (Render.visitAll setup setup.config.maxDepth env t.nodes)
      (Render.visitAll setup' setup'.config.maxDepth env t'.nodes))
    (start : rel (.start host) (.start host)) :
    (∃ error, (t.render setup data host).result = .error error ∧ lost error) ∨
      (t'.render setup' data host).result = (t.render setup data host).result ∧
        rel (t.render setup data host).state (t'.render setup' data host).state := by
  unfold render
  rw [← name]
  cases t.name with
  | none => exact Renderer.run_of_leads shown (h _) start
  | some root => exact Renderer.run_of_leads shown (h _) start

end Mustache
