import Mustache.Proofs.Render.Independence

/-! A render that takes notes. Before it comes to a node it adds to the notes, which no handler looks
at. In everything else it is the render without notes. -/
namespace Mustache

/-- A node that is being rendered, in its surroundings. -/
structure Visit where
  env : Env
  node : Node

variable {σ ν : Type}

/-- A host with notes beside its state. It does not look at them. -/
def Host.noting (h : Host σ) (ν : Type) : Host (σ × ν) where
  invoke l argument s := ((h.invoke l argument s.1).1, (h.invoke l argument s.1).2, s.2)
  cancelled s := h.cancelled s.1

def Setup.noting (setup : Setup σ) (ν : Type) : Setup (σ × ν) :=
  ⟨setup.config, setup.loader, setup.host.noting ν⟩

/-- How the notes change before a visit, which lies inside of others, given from the inside out. -/
abbrev Notes (σ ν : Type) := Visit → (around : List Visit) → RenderState (σ × ν) → ν

namespace RenderState

/-- The state with notes beside it. -/
def noting (s : RenderState σ) (notes : ν) : RenderState (σ × ν) :=
  ⟨s.writes, s.requests, s.host, notes⟩

/-- The state without its notes. -/
def plain (s : RenderState (σ × ν)) : RenderState σ := ⟨s.writes, s.requests, s.host.1⟩

end RenderState

namespace Render

/-- Changes the notes before a visit. -/
def note (notes : Notes σ ν) (v : Visit) (around : List Visit) : RenderM (σ × ν) Unit :=
  modify fun s => { s with host := (s.host.1, notes v around s) }

/-- Goes one level down inside of some visits, with `room` levels left, and takes notes before each
visit that is made there. -/
def noted (setup : Setup σ) (notes : Notes σ ν) :
    (room : Nat) → (around : List Visit) → Deeper (σ × ν)
  | 0, _ => fun _ _ => throw (.depthExceeded setup.config.maxDepth)
  | room + 1, around => fun env nodes => nodes.forM fun node => do
    note notes ⟨env, node⟩ around
    visit (setup.noting ν) (noted setup notes room (⟨env, node⟩ :: around)) env node

theorem lockstep_noting (setup : Setup σ) (ν : Type) :
    setup.host.Lockstep (setup.noting ν).host fun s s' => s = s'.plain where
  writes same := by rw [same]; rfl
  written same _ := by rw [same]; rfl
  cancelled same := by rw [same]; rfl
  answer same _ _ := by rw [same]; rfl
  called same _ _ := by rw [same]; rfl
  loaded same _ := by rw [same]; rfl

/-- By induction on the levels left: the notes stand beside the state of the host, where no handler
looks for them. -/
theorem leads_noted (setup : Setup σ) (notes : Notes σ ν) (room : Nat) (around : List Visit) :
    Deeper.Leads (fun s s' => s = RenderState.plain s') (fun _ => False) (· = ·) (· = ·)
      (descend setup room) (noted setup notes room around) := by
  induction room generalizing around with
  | zero => exact fun _ _ => .throw _
  | succ room ih =>
    intro a b nodes _ env same
    subst same
    refine .forM (List.forall₂_same.2 fun n _ => ?_)
    have step := leads_visit (lockstep_noting setup ν) (setup.config.leads_refl _) rfl
      Context.matching_eq (fun _ _ => rfl) (ih (⟨b, n⟩ :: around)) env
      (n.congruent_refl fun _ => rfl)
    -- what is noted is left out again
    exact fun s s' related => step s { s' with host := (s'.host.1, _) } related

/-- The notes change nothing. -/
theorem noted_eq (setup : Setup σ) (notes : Notes σ ν) (room : Nat) (env : Env)
    (nodes : List Node) (s : RenderState (σ × ν)) :
    visitAll setup room env nodes s.plain =
      mapState RenderState.plain (noted setup notes (room + 1) [] env nodes s) := by
  have steps : Ends (fun s s' => s = RenderState.plain s') (fun _ => False)
      (visitAll setup room env nodes s.plain) (noted setup notes (room + 1) [] env nodes s) :=
    Leads.ends (leads_noted setup notes (room + 1) [] (Env.leads_refl (fun _ => rfl) _ _) rfl) rfl
  obtain ⟨ends, state⟩ := steps.alike
  refine result_ext ?_ ?_
  · rw [ends, outcome_mapState]
  · rw [state, final_mapState]

end Render

namespace Renderer
open Render (final outcome)
variable (r : Renderer σ) (notes : Notes σ ν) (begun : ν) (nodes : List Node)

/-- How it ends to render nodes in order up to the first failure, with notes that have been begun. -/
def noted : EStateM.Result Error (RenderState (σ × ν)) Unit :=
  Render.noted r.setup notes (r.room + 1) [] r.env nodes (r.state.noting begun)

theorem accept_eq_noted :
    r.accept nodes = (outcome (r.noted notes begun nodes),
      { r with state := (final (r.noted notes begun nodes)).plain }) := by
  have same := Render.noted_eq r.setup notes r.room r.env nodes (r.state.noting begun)
  change Render.visitAll r.setup r.room r.env nodes r.state =
    Render.mapState _ (r.noted notes begun nodes) at same
  unfold accept
  rw [same]
  cases r.noted notes begun nodes <;> rfl

end Renderer

end Mustache
