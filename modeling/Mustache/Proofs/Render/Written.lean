import Mustache.Proofs.Render.Beside
import Mustache.Proofs.Render.Independence

/-! What holds of everything that a render has written. It has to be kept by each piece that one of
the supplied nodes can write, under the indent in force there; then it holds at the end, whether the
render succeeds or fails. -/
namespace Mustache.Render
variable {σ : Type}

/-- A property of the pieces written so far, newest first, for each indent that can be in force. It
is kept by every piece, and what holds inside of an indented partial holds behind it. -/
structure Upholds (loader : Loader) (root : List Node) (p : Value → Prop) (indents : String → Prop)
    (inv : String → List Write → Prop) : Prop where
  text {i text : String} {writes : List Write} (possible : indents i)
    (supplied : loader.Supplies root (.text text)) (before : inv i writes) :
    inv i (.text i text :: writes)
  value {i name text : String} {escaped : Bool} {x : Value} {writes : List Write}
    (possible : indents i) (supplied : loader.Supplies root (.interpolation name escaped))
    (holds : p x) (shows : x.text? = some text) (before : inv i writes) :
    inv i (.value i text (shown escaped text) :: writes)
  opened {i : String} {inner : Inclusion} {writes : List Write} (possible : indents i)
    (supplied : loader.Supplies root (.inclusion inner)) (indented : inner.indent ≠ "")
    (before : inv i writes) : inv (i ++ inner.indent) (.openLine :: writes)
  behind {i inner : String} {writes : List Write} (inside : inv (i ++ inner) writes) : inv i writes
  inside {i : String} {inner : Inclusion} (possible : indents i)
    (supplied : loader.Supplies root (.inclusion inner)) : indents (i ++ inner.indent)

variable {setup : Setup σ} {root : List Node} {p : Value → Prop} {indents : String → Prop}
  {inv : String → List Write → Prop}

/-- A render beside itself. -/
theorem Upholds.margins (h : Upholds setup.loader root p indents inv) :
    Margins setup root p (fun i j => j = i ∧ indents i)
      fun i s s' => s' = s ∧ inv i s.writes where
  flag := by
    rintro _ _ _ ⟨rfl, -⟩
    rfl
  loaded := by
    rintro _ s _ ⟨rfl, before⟩ name
    exact ⟨rfl, before⟩
  behind := by
    rintro _ _ _ _ ⟨rfl, inside⟩
    exact ⟨rfl, h.behind inside⟩
  text := by
    rintro i _ text ⟨rfl, possible⟩ supplied s _ ⟨rfl, before⟩
    exact ⟨rfl, h.text possible supplied before⟩
  value := by
    rintro i _ name text escaped x ⟨rfl, possible⟩ supplied holds shows s _ ⟨rfl, before⟩
    exact ⟨rfl, h.value possible supplied holds shows before⟩
  opened := by
    rintro i _ inner ⟨rfl, possible⟩ supplied indented s _ ⟨rfl, before⟩
    exact ⟨rfl, h.opened possible supplied indented before⟩
  inside := by
    rintro i _ inner ⟨rfl, possible⟩ supplied
    exact ⟨rfl, h.inside possible supplied⟩

theorem Upholds.descend (h : Upholds setup.loader root p indents inv)
    (closed : Value.Closed p False) (room : Nat) {env : Env} {nodes : List Node}
    (surroundings : env.Supplied setup.loader root p)
    (supplied : ∀ n ∈ nodes, setup.loader.Supplies root n) (possible : indents env.indent)
    {s : RenderState σ} (before : inv env.indent s.writes) :
    inv env.indent (final (Render.descend setup room env nodes s)).writes := by
  have place : Beside setup.loader root p (fun i j => j = i ∧ indents i) env nodes env nodes :=
    .intro surroundings supplied ⟨rfl, possible⟩
  obtain ⟨-, -, after⟩ :=
    ((follows_beside h.margins closed room _ _ _ _ place).ends ⟨rfl, before⟩).alike
  exact after

end Mustache.Render

namespace Mustache

theorem Renderer.state_accept {σ : Type} (r : Renderer σ) (nodes : List Node) :
    (r.accept nodes).2.state =
      Render.final (Render.visitAll r.setup r.room r.env nodes r.state) := by
  unfold accept
  cases Render.visitAll r.setup r.room r.env nodes r.state <;> rfl

/-- Whatever a new renderer accepts, the property holds of what it has written then. -/
theorem Renderer.upholds_accept {σ : Type} {setup : Setup σ} {nodes : List Node} {p : Value → Prop}
    {indents : String → Prop} {inv : String → List Write → Prop}
    (h : Render.Upholds setup.loader nodes p indents inv) (closed : Value.Closed p False)
    {data : Value} (holds : p data) (root : Option String) (host : σ) (flush : indents "")
    (start : inv "" []) :
    inv "" ((fresh setup data root host).accept nodes).2.state.writes := by
  have surroundings : Env.Supplied setup.loader nodes p
      { Env.ofData data with path := (root.map .rooted).getD .empty } := ⟨.ofRoot holds, .empty⟩
  have after := h.descend closed (setup.config.maxDepth + 1) (s := .start host) surroundings
    (fun _ mem => .root mem) flush start
  rw [state_accept, fresh_eq]
  exact after

end Mustache
