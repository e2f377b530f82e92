import Mustache.Render

/-! A renderer: the surroundings of the next node together with everything written so far. -/
namespace Mustache

structure Renderer (σ : Type) where
  setup : Setup σ
  env : Env
  depth : Nat
  state : RenderState σ

namespace Renderer
variable {σ : Type}

/-- A renderer that has not begun. -/
def start (setup : Setup σ) (data : Value) (host : σ) : Renderer σ :=
  ⟨setup, .ofData data, 0, .start host⟩

/-- Puts a name on the inclusion path, so that a partial which includes it back is a cycle. -/
def rootedAt (r : Renderer σ) (name : String) : Renderer σ :=
  { r with env := { r.env with path := .rooted name } }

/-- The levels still allowed below the next node. -/
def room (r : Renderer σ) : Nat := r.setup.config.maxDepth - r.depth

/-- Renders nodes in order up to the first failure. -/
def accept (r : Renderer σ) (nodes : List Node) : Except Error Unit × Renderer σ :=
  match Render.visitAll r.setup r.room r.env nodes r.state with
  | .ok _ state => (.ok (), { r with state })
  | .error error state => (.error error, { r with state })

/-- The text written so far. -/
def output (r : Renderer σ) : String := r.state.output

end Renderer

/-- What a whole render comes to: the complete text or an error, and what it asked for. -/
structure Rendering (σ : Type) where
  result : Except Error String
  state : RenderState σ

/-- Renders nodes to the end with a new renderer. -/
def Renderer.run {σ : Type} (r : Renderer σ) (nodes : List Node) : Rendering σ :=
  let (result, last) := r.accept nodes
  ⟨result.map fun _ => last.output, last.state⟩

/-- Renders a template; one that has a name is the root of the inclusion path. -/
def Template.render {σ : Type} (t : Template) (setup : Setup σ) (data : Value) (host : σ) :
    Rendering σ :=
  let fresh := Renderer.start setup data host
  ((t.name.map fresh.rootedAt).getD fresh).run t.nodes

end Mustache
