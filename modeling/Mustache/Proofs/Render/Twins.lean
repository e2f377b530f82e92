import Mustache.Proofs.Render.Simulation

/-! Two renders side by side. Where two trees differ in nothing that a render looks at, and the
names in them mean the same in two contexts, the renders are the same step by step: they write the
same, ask for the same and fail alike. -/
namespace Mustache
open List (Forall₂)

/-- Blocks that are related as nodes. -/
def Block.Related (q : Node → Node → Prop) (b b' : Block) : Prop := q (.block b) (.block b')

/-- Nodes in which a render finds the same, on every level and in the templates of partials: only
the body of a section may lie elsewhere. All names in them are among `names`. -/
structure Node.Matching (loader : Loader) (names : String → Prop) (lambdas : Prop)
    (q : Node → Node → Prop) : Prop where
  text {t : String} {n : Node} (h : q (.text t) n) : n = .text t
  interpolation {name : String} {escaped : Bool} {n : Node}
    (h : q (.interpolation name escaped) n) : n = .interpolation name escaped ∧ names name
  sect {s : Section} {n : Node} (h : q (.sect s) n) :
    ∃ s', n = .sect s' ∧ names s.name ∧ s.name = s'.name ∧ s.inverted = s'.inverted ∧
      s.body.text = s'.body.text ∧ s.body.delimiters = s'.body.delimiters ∧
      Forall₂ q s.children s'.children
  inclusion {i : Inclusion} {n : Node} (h : q (.inclusion i) n) :
    n = .inclusion i ∧ ∀ t, loader.target? i = some t → Forall₂ q t.nodes t.nodes
  parent {i : Inclusion} {scope : List Block} {n : Node} (h : q (.parent i scope) n) :
    ∃ scope', n = .parent i scope' ∧ q (.inclusion i) (.inclusion i) ∧
      Forall₂ (Block.Related q) scope scope'
  block {b : Block} {n : Node} (h : q (.block b) n) :
    ∃ b', n = .block b' ∧ b'.name = b.name ∧ Forall₂ q b.children b'.children
  returned {text : String} {d : Delimiters} {t : Template} (allowed : lambdas)
    (parsed : Template.parseWith d text = .ok t) : Forall₂ q t.nodes t.nodes

/-- Surroundings that differ only in related frames and related overrides. -/
structure Env.Twin (r : Context → Context → Prop) (q : Node → Node → Prop) (a b : Env) : Prop where
  context : r a.context b.context
  overrides : Forall₂ (Forall₂ (Block.Related q)) a.overrides.scopes b.overrides.scopes
  path : a.path = b.path
  indent : a.indent = b.indent

namespace Node.Matching
variable {loader : Loader} {names : String → Prop} {lambdas : Prop} {q : Node → Node → Prop}
  (k : Matching loader names lambdas q)
include k

theorem inclusion_congruent {i : Inclusion} (h : q (.inclusion i) (.inclusion i)) :
    i.Congruent loader (Forall₂ q) i := by
  have target := (k.inclusion h).2
  unfold Loader.target? at target
  refine ⟨rfl, rfl, ?_, fun {t} missing found => ?_⟩
  · cases settled : i.target with
    | none => exact .none
    | some t =>
      rw [settled] at target
      exact .some (target t rfl)
  · rw [missing] at target
    exact target t found

theorem block_congruent {b b' : Block} (h : Block.Related q b b') :
    b.Congruent (Forall₂ q) b' := by
  obtain ⟨c, same, name, children⟩ := k.block h
  obtain rfl := Node.block.inj same
  exact ⟨name, children⟩

/-- Nodes that match differ at most in lists of nodes that match. -/
theorem congruent {n n' : Node} (h : q n n') : n.Congruent loader names (Forall₂ q) n' := by
  cases n with
  | text t =>
    obtain rfl := k.text h
    exact .text t
  | interpolation name escaped =>
    obtain ⟨rfl, known⟩ := k.interpolation h
    exact .interpolation known escaped
  | sect s =>
    obtain ⟨s', rfl, known, name, inverted, text, delimiters, children⟩ := k.sect h
    exact .sect ⟨known, name, inverted, text, delimiters, children⟩
  | inclusion i =>
    obtain ⟨rfl, -⟩ := k.inclusion h
    exact .inclusion (k.inclusion_congruent h)
  | parent i scope =>
    obtain ⟨scope', rfl, base, blocks⟩ := k.parent h
    exact .parent (k.inclusion_congruent base) (blocks.imp fun _ _ => k.block_congruent)
  | block b =>
    obtain ⟨b', rfl, name, children⟩ := k.block h
    exact .block ⟨name, children⟩

end Node.Matching

namespace Render
variable {σ : Type} {setup : Setup σ} {names : String → Prop} {lambdas : Prop}
  {r : Context → Context → Prop} {v : Value → Value → Prop} {q : Node → Node → Prop} {a b : Env}

/-- A step that leads another whatever happens does the same. -/
theorem Leads.eq {α : Type} {first second : RenderM σ α}
    (h : Leads (· = ·) (fun _ => False) first second) : first = second := by
  funext s
  obtain ⟨ends, state⟩ := (h.ends rfl).alike
  exact result_ext ends state

/-- One level down twins do the same. -/
def Deeper.Twins (r : Context → Context → Prop) (q : Node → Node → Prop) (deeper : Deeper σ) :
    Prop :=
  ∀ {a b : Env} {nodes nodes' : List Node}, a.Twin r q b → Forall₂ q nodes nodes' →
    deeper a nodes = deeper b nodes'

section Runs
variable (m : Context.Matching names lambdas r v) (k : Node.Matching setup.loader names lambdas q)
include m k

/-- One level down a twin leads the other, which may have more levels if going too deep is lost. -/
theorem leads_twin {lost : Error → Prop} {room room' : Nat}
    (levels : setup.config.Levels lost setup.config room room') (twin : a.Twin r q b)
    {nodes nodes' : List Node} (h : Forall₂ q nodes nodes') :
    Leads (· = ·) lost (descend setup room a nodes) (descend setup room' b nodes') := by
  have env : a.Leads lost r (Forall₂ q) b :=
    ⟨twin.context, twin.overrides.imp fun _ _ scope => scope.imp fun _ _ => k.block_congruent,
      .inl twin.path, twin.indent⟩
  have steps : Deeper.Leads (· = ·) lost r (Forall₂ q) (descend setup room)
      (descend setup room') :=
    leads_descend setup.host.lockstep_eq (setup.config.leads_refl _) rfl m k.returned
      (fun related => related.imp fun _ _ => k.congruent) levels
  exact steps env h

theorem twins_descend (room : Nat) : Deeper.Twins r q (descend setup room) := by
  intro a b nodes nodes' twin related
  exact (leads_twin m k (.inl ⟨rfl, rfl⟩) twin related).eq

/-- Twins render alike. -/
theorem twin_visitAll (room : Nat) (twin : a.Twin r q b) {nodes nodes' : List Node}
    (h : Forall₂ q nodes nodes') : visitAll setup room a nodes = visitAll setup room b nodes' :=
  twins_descend m k (room + 1) twin h

end Runs

end Render

/-- A whole render comes to what its steps come to. -/
theorem Renderer.run_congr {σ : Type} {r r' : Renderer σ} {nodes nodes' : List Node}
    (h : Render.visitAll r.setup r.room r.env nodes r.state =
      Render.visitAll r'.setup r'.room r'.env nodes' r'.state) : r.run nodes = r'.run nodes' := by
  simp only [run, accept, h]
  cases Render.visitAll r'.setup r'.room r'.env nodes' r'.state <;> rfl

end Mustache
