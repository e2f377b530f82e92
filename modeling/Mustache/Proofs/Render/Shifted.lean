import Mustache.Proofs.Render.Independence
import Mustache.Proofs.Render.Splice
import Mustache.Proofs.Render.Beside

/-! A partial under an indent and without it. Without lambdas in the data, the indent decides nothing
but how the pieces are laid out: the same pieces are written, each one indent further in. -/
namespace Mustache

/-- The piece one indent further in. -/
def Write.shift (margin : String) : Write → Write
  | .openLine => .openLine
  | .text indent words => .text (margin ++ indent) words
  | .value indent shown written => .value (margin ++ indent) shown written

/-- The same has been asked for, and the same written one indent further in, but for a line that may
have been opened at the very beginning. -/
structure RenderState.Shifted {σ : Type} (margin : String) (s s' : RenderState σ) : Prop where
  requests : s'.requests = s.requests
  host : s'.host = s.host
  writes : s'.writes = s.writes.map (.shift margin) ∨
    s'.writes = s.writes.map (.shift margin) ++ [.openLine]

namespace Render
variable {σ : Type}

theorem keeps_shifted (margin : String) (piece : Write) :
    Keeps (RenderState.Shifted margin : RenderState σ → RenderState σ → Prop)
      (RenderState.Shifted margin) piece (piece.shift margin) := by
  intro s s' shifted
  refine ⟨shifted.requests, shifted.host, ?_⟩
  rcases shifted.writes with writes | writes
  · exact .inl (congrArg (_ :: ·) writes)
  · exact .inr (congrArg (_ :: ·) writes)

theorem margins_shifted (setup : Setup σ) (root : List Node) (p : Value → Prop)
    (margin : String) :
    Margins setup root p (fun i j => j = margin ++ i) fun _ => RenderState.Shifted margin where
  flag shifted := by rw [shifted.host]
  loaded shifted name := ⟨congrArg (_ :: ·) shifted.requests, shifted.host, shifted.writes⟩
  behind shifted := shifted
  text := by
    rintro i _ text rfl -
    exact keeps_shifted margin (.text i text)
  value := by
    rintro i _ name text escaped x rfl - - -
    exact keeps_shifted margin (.value i text (shown escaped text))
  opened _ _ _ := keeps_shifted margin .openLine
  inside := by
    rintro i _ inner rfl -
    rw [String.append_assoc]

theorem final_checkCancelled (setup : Setup σ) (s : RenderState σ) :
    final (checkCancelled setup s) = s := by
  rw [checkCancelled_apply]
  cases setup.host.cancelled s.host <;> rfl

theorem writes_final_target (setup : Setup σ) (i : Inclusion) (s : RenderState σ) :
    (final (target setup i s)).writes = s.writes := by
  unfold target
  cases i.target with
  | some t => rfl
  | none =>
    simp only [load]
    cases setup.loader i.name <;> rfl

/-- One partial, from the check that the render goes on to the end of its template. -/
theorem visitAll_inclusion (setup : Setup σ) (room : Nat) (env : Env) (i : Inclusion) :
    visitAll setup room env [.inclusion i] = checkCancelled setup >>= fun _ =>
      target setup i >>= visitTemplate (descend setup room) env i := by
  rw [visitAll_singleton, ← visitInclusion_eq]
  rfl

/-- Inside of the template that a partial leads to, if nothing has been written before. -/
theorem ends_visitTemplate (setup : Setup σ) (room : Nat) {env : Env} (flush : env.indent = "")
    (i : Inclusion) (indented : i.indent ≠ "") (t : Template) {p : Value → Prop}
    (closed : Value.Closed p False) (frames : env.context.All p) (none : env.overrides = .empty)
    {s : RenderState σ} (new : s.writes = []) :
    Ends (RenderState.Shifted i.indent) (fun _ => False)
      (visitTemplate (descend setup room) env { i with indent := "" } t s)
      (visitTemplate (descend setup room) env i t s) := by
  have same : s.Shifted i.indent s := ⟨rfl, rfl, .inl (by rw [new]; rfl)⟩
  have opened : s.Shifted i.indent { s with writes := .openLine :: s.writes } :=
    ⟨rfl, rfl, .inr (by rw [new]; rfl)⟩
  unfold visitTemplate
  cases env.path.enter i.name with
  | error error => exact .inr ⟨s, rfl, same⟩
  | ok path =>
    have inside : Env.Supplied setup.loader t.nodes p { env with path } :=
      ⟨frames, none.symm ▸ .empty⟩
    have further_in : env.indent ++ i.indent = i.indent ++ env.indent := by
      rw [flush, String.empty_append, String.append_empty]
    have place : Beside setup.loader t.nodes p (fun indent j => j = i.indent ++ indent)
        { env with path } t.nodes { env with path, indent := env.indent ++ i.indent } t.nodes :=
      .intro inside (fun _ mem => .root mem) further_in
    have steps := follows_beside (margins_shifted setup t.nodes p i.indent) closed room _ _ _ _ place
    have further := steps.ends opened
    have some : i.indent.isEmpty = false := by simpa using indented
    simp only [some, Bool.false_eq_true, if_false]
    exact further

end Render

/-- A partial under an indent, for a renderer that has not begun: it ends as without the indent, and
has written the same one indent further in. -/
theorem Renderer.accept_shifted {σ : Type} (setup : Setup σ) {data : Value}
    (free : data.LambdaFree) (root : Option String) (host : σ) (i : Inclusion)
    (indented : i.indent ≠ "") :
    let plain := (fresh setup data root host).accept [.inclusion { i with indent := "" }]
    let shifted := (fresh setup data root host).accept [.inclusion i]
    shifted.1 = plain.1 ∧ plain.2.state.Shifted i.indent shifted.2.state := by
  have new {s : RenderState σ} (h : s.writes = []) : s.Shifted i.indent s :=
    ⟨rfl, rfl, .inl (by rw [h]; rfl)⟩
  refine (accept_of_ends ?_).resolve_left fun ⟨_, _, gone⟩ => gone
  rw [fresh_eq, Render.visitAll_inclusion, Render.visitAll_inclusion]
  refine .bind_same (new ?_) fun _ s checked => ?_
  · rw [Render.final_checkCancelled]
    rfl
  obtain rfl := Render.ok_of_checkCancelled checked
  have quiet := Render.writes_final_target setup i (.start host)
  refine .bind_same (new quiet) fun t s ran => ?_
  rw [show Render.target setup i (.start host) = .ok t s from ran] at quiet
  exact Render.ends_visitTemplate setup _ rfl i indented t Value.closed_lambdaFree (.ofRoot free)
    rfl quiet

end Mustache
