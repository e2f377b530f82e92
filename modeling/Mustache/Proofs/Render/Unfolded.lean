import Mustache.Proofs.Render.Simulation

/-! A render that unfolds partials. It forgets the partials that it lies inside of, so that one may
stand inside of itself over and over. Up to the first cycle it is the render that keeps them in
mind. -/
namespace Mustache

/-- A partial stands inside of itself. -/
inductive Error.OfCycle : Error → Prop
  | cycle (name : String) (path : List String) : OfCycle (.inclusionCycle name path)

/-- The surroundings without the partials that they lie inside of. -/
def Env.pathless (env : Env) : Env := { env with path := .empty }

/-- Whatever can be entered in some surroundings can be entered without a path. -/
theorem Env.Leads.pathless {a b : Env} (env : a.Leads Error.OfCycle (· = ·) (· = ·) b) :
    a.Leads Error.OfCycle (· = ·) (· = ·) b.pathless where
  context := env.context
  overrides := env.overrides
  path := .inr ⟨List.nil_subset _, .cycle⟩
  indent := env.indent

variable {σ : Type}

namespace Render

/-- Goes one level down, with `room` levels left, and forgets before each visit which partials it lies
inside of. -/
def unfolded (setup : Setup σ) : (room : Nat) → Deeper σ
  | 0 => fun _ _ => throw (.depthExceeded setup.config.maxDepth)
  | room + 1 => fun env nodes => nodes.forM (visit setup (unfolded setup room) env.pathless)

/-- By induction on the levels left: a partial that can still be entered is entered on both sides. -/
theorem leads_unfolded (setup : Setup σ) (room : Nat) :
    Deeper.Leads (· = ·) Error.OfCycle (· = ·) (· = ·) (descend setup room)
      (unfolded setup room) := by
  induction room with
  | zero => exact fun _ _ => .throw _
  | succ room ih =>
    intro a b nodes _ env same
    subst same
    refine .forM (List.forall₂_same.2 fun n _ => ?_)
    exact leads_visit setup.host.lockstep_eq (setup.config.leads_refl _) rfl Context.matching_eq
      (fun _ _ => rfl) ih env.pathless (n.congruent_refl fun _ => rfl)

end Render

namespace Renderer
open Render (final outcome)

theorem run_eq (r : Renderer σ) (nodes : List Node) :
    let ran := Render.visitAll r.setup r.room r.env nodes r.state
    r.run nodes = ⟨(outcome ran).map fun _ => (final ran).output, final ran⟩ := by
  unfold run accept
  cases Render.visitAll r.setup r.room r.env nodes r.state <;> rfl

/-- Renders nodes to the end, and unfolds each partial wherever it stands. -/
def runUnfolded (r : Renderer σ) (nodes : List Node) : Rendering σ :=
  let ran := Render.unfolded r.setup (r.room + 1) r.env nodes r.state
  ⟨(outcome ran).map fun _ => (final ran).output, final ran⟩

theorem run_eq_unfolded_or_cycle (r : Renderer σ) (nodes : List Node) :
    r.run nodes = r.runUnfolded nodes ∨
      ∃ name path, (r.run nodes).result = .error (.inclusionCycle name path) := by
  have ends : Render.Ends (· = ·) Error.OfCycle
      (Render.visitAll r.setup r.room r.env nodes r.state)
      (Render.unfolded r.setup (r.room + 1) r.env nodes r.state) :=
    Render.Leads.ends (Render.leads_unfolded r.setup (r.room + 1)
      (Env.leads_refl (fun _ => rfl) _ r.env) rfl) rfl
  rcases ends.eq_or_lost with same | ⟨_, failed, ⟨name, path⟩⟩
  · rw [runUnfolded, same, run_eq]
    exact .inl rfl
  · rw [run_eq, failed]
    exact .inr ⟨name, path, rfl⟩

end Renderer

/-- Renders a template and unfolds each partial wherever it stands, even inside of itself. -/
def Template.renderUnfolded (t : Template) (setup : Setup σ) (data : Value) (host : σ) :
    Rendering σ :=
  (Renderer.start setup data host).runUnfolded t.nodes

/-- A render finds a cycle, or else it is the same as if partials were unfolded. -/
theorem Template.render_eq_unfolded_or_cycle (t : Template) (setup : Setup σ) (data : Value)
    (host : σ) :
    t.render setup data host = t.renderUnfolded setup data host ∨
      ∃ name path, (t.render setup data host).result = .error (.inclusionCycle name path) := by
  unfold render
  cases t.name with
  | none => exact Renderer.run_eq_unfolded_or_cycle _ t.nodes
  | some name => exact Renderer.run_eq_unfolded_or_cycle _ t.nodes

end Mustache
