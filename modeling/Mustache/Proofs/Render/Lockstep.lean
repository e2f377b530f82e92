import Mustache.Proofs.Render.Alike

/-! A step that leads another. The second does what the first does, up to where the first fails for a
reason that is lost on it. Steps one after the other lead, and so do loops; what a step asks of its
host it may ask in lockstep. -/
namespace Mustache
open List (Forall₂)

/-- A relation between the states of two renders that is kept when both write the same and ask their
hosts for the same. Related states show the same text, and their hosts answer alike. -/
structure Host.Lockstep {σ τ : Type} (h : Host σ) (h' : Host τ)
    (rel : RenderState σ → RenderState τ → Prop) : Prop where
  writes {s : RenderState σ} {s' : RenderState τ} (related : rel s s') : s.writes = s'.writes
  written {s : RenderState σ} {s' : RenderState τ} (related : rel s s') (writes : List Write) :
    rel { s with writes } { s' with writes }
  cancelled {s : RenderState σ} {s' : RenderState τ} (related : rel s s') :
    h.cancelled s.host = h'.cancelled s'.host
  answer {s : RenderState σ} {s' : RenderState τ} (related : rel s s') (l : Lambda)
    (argument : String) : (h.invoke l argument s.host).1 = (h'.invoke l argument s'.host).1
  called {s : RenderState σ} {s' : RenderState τ} (related : rel s s') (l : Lambda)
    (argument : String) :
    rel ⟨s.writes, .call l argument :: s.requests, (h.invoke l argument s.host).2⟩
      ⟨s'.writes, .call l argument :: s'.requests, (h'.invoke l argument s'.host).2⟩
  loaded {s : RenderState σ} {s' : RenderState τ} (related : rel s s') (name : String) :
    rel { s with requests := .load name :: s.requests }
      { s' with requests := .load name :: s'.requests }

theorem Host.lockstep_eq {σ : Type} (h : Host σ) : h.Lockstep h (· = ·) where
  writes same := by rw [same]
  written same _ := by rw [same]
  cancelled same := by rw [same]
  answer same _ _ := by rw [same]
  called same _ _ := by rw [same]
  loaded same _ := by rw [same]

namespace Render
variable {σ τ : Type} {α β : Type} {rel : RenderState σ → RenderState τ → Prop}
  {lost : Error → Prop}

/-- Steps that end alike from related states, and in related states. Where the first fails for a
reason that is lost, nothing is said of the second. -/
def Leads (rel : RenderState σ → RenderState τ → Prop) (lost : Error → Prop)
    (first : RenderM σ α) (second : RenderM τ α) : Prop :=
  ∀ s s', rel s s' →
    match first s with
    | .ok a t => ∃ t', second s' = .ok a t' ∧ rel t t'
    | .error error t => lost error ∨ ∃ t', second s' = .error error t' ∧ rel t t'

/-- Two ends that are alike, in related states, unless the reason of the first is lost. -/
def Ends (rel : RenderState σ → RenderState τ → Prop) (lost : Error → Prop) :
    (first : EStateM.Result Error (RenderState σ) α) →
      (second : EStateM.Result Error (RenderState τ) α) → Prop
  | .ok a t, second => ∃ t', second = .ok a t' ∧ rel t t'
  | .error error t, second => lost error ∨ ∃ t', second = .error error t' ∧ rel t t'

theorem Leads.ends {first : RenderM σ α} {second : RenderM τ α} (h : Leads rel lost first second)
    {s : RenderState σ} {s' : RenderState τ} (related : rel s s') :
    Ends rel lost (first s) (second s') := by
  have steps := h s s' related
  cases ran : first s with
  | ok a t =>
    rw [ran] at steps
    exact steps
  | error error t =>
    rw [ran] at steps
    exact steps

/-- Where no reason is lost, both end in the same way and in related states. -/
theorem Ends.alike {first : EStateM.Result Error (RenderState σ) α}
    {second : EStateM.Result Error (RenderState τ) α}
    (h : Ends rel (fun _ => False) first second) :
    outcome first = outcome second ∧ rel (final first) (final second) := by
  cases first with
  | ok a t =>
    obtain ⟨t', rfl, related⟩ := h
    exact ⟨rfl, related⟩
  | error error t =>
    obtain ⟨t', rfl, related⟩ := h.resolve_left id
    exact ⟨rfl, related⟩

/-- Where states are related if they are the same, both come to the same, unless the reason of the
first is lost. -/
theorem Ends.eq_or_lost {first second : EStateM.Result Error (RenderState σ) α}
    (h : Ends (· = ·) lost first second) :
    second = first ∨ ∃ error, outcome first = .error error ∧ lost error := by
  cases first with
  | ok a t =>
    obtain ⟨t', rfl, rfl⟩ := h
    exact .inl rfl
  | error error t =>
    rcases h with gone | ⟨t', rfl, rfl⟩
    · exact .inr ⟨error, rfl, gone⟩
    · exact .inl rfl

/-- Behind a step that both take from the same state. -/
theorem Ends.bind_same {rel : RenderState σ → RenderState σ → Prop} {step : RenderM σ α}
    {s : RenderState σ} {next next' : α → RenderM σ β}
    (same : rel (final (step s)) (final (step s)))
    (further : ∀ a t, step s = .ok a t → Ends rel lost (next a t) (next' a t)) :
    Ends rel lost ((step >>= next) s) ((step >>= next') s) := by
  rw [bind_apply, bind_apply]
  cases ran : step s with
  | ok a t => exact further a t ran
  | error error t =>
    rw [ran] at same
    exact .inr ⟨t, rfl, same⟩

namespace Leads

theorem pure (a : α) : Leads rel lost (pure a : RenderM σ α) (pure a : RenderM τ α) :=
  fun _ s' related => ⟨s', rfl, related⟩

theorem throw (error : Error) :
    Leads rel lost (throw error : RenderM σ α) (throw error : RenderM τ α) :=
  fun _ s' related => .inr ⟨s', rfl, related⟩

theorem of_lost {error : Error} (h : lost error) (step : RenderM τ α) :
    Leads rel lost (MonadExcept.throw error : RenderM σ α) step := fun _ _ _ => .inl h

theorem bind_of_ok {first : RenderM σ α} {second : RenderM τ α} {next : α → RenderM σ β}
    {next' : α → RenderM τ β}
    (h : Leads rel lost first second)
    (hn : ∀ {a s t}, first s = .ok a t → Leads rel lost (next a) (next' a)) :
    Leads rel lost (first >>= next) (second >>= next') := by
  intro s s' related
  have head := h s s' related
  rw [bind_apply, bind_apply]
  cases ran : first s with
  | ok a t =>
    rw [ran] at head
    obtain ⟨t', ran', related'⟩ := head
    rw [ran']
    exact hn ran t t' related'
  | error error t =>
    rw [ran] at head
    rcases head with gone | ⟨t', ran', related'⟩
    · exact .inl gone
    · rw [ran']
      exact .inr ⟨t', rfl, related'⟩

theorem bind {first : RenderM σ α} {second : RenderM τ α} {next : α → RenderM σ β}
    {next' : α → RenderM τ β}
    (h : Leads rel lost first second) (hn : ∀ a, Leads rel lost (next a) (next' a)) :
    Leads rel lost (first >>= next) (second >>= next') := bind_of_ok h fun _ => hn _

theorem forM {items items' : List α} {visit : α → RenderM σ Unit} {visit' : α → RenderM τ Unit}
    (h : Forall₂ (fun x x' => Leads rel lost (visit x) (visit' x')) items items') :
    Leads rel lost (items.forM visit) (items'.forM visit') := by
  induction h with
  | nil => exact pure ()
  | cons first _ ih => exact bind first fun _ => ih

theorem forM_append {items items' more more' : List α} {visit : α → RenderM σ Unit}
    {visit' : α → RenderM τ Unit}
    (h : Leads rel lost (items.forM visit) (items'.forM visit'))
    (rest : Leads rel lost (more.forM visit) (more'.forM visit')) :
    Leads rel lost ((items ++ more).forM visit) ((items' ++ more').forM visit') := by
  rw [show (items ++ more).forM visit = _ from List.forM_append,
    show (items' ++ more').forM visit' = _ from List.forM_append]
  exact bind h fun _ => rest

section Requests
variable {setup : Setup σ} {setup' : Setup τ}

theorem write {piece piece' : Write} (written : ∀ {s s'}, rel s s' →
      rel { s with writes := piece :: s.writes } { s' with writes := piece' :: s'.writes }) :
    Leads rel lost (Render.write piece : RenderM σ Unit) (Render.write piece' : RenderM τ Unit) :=
  fun _ _ related => ⟨_, rfl, written related⟩

theorem checkCancelled
    (flag : ∀ {s s'}, rel s s' → setup.host.cancelled s.host = setup'.host.cancelled s'.host) :
    Leads rel lost (Render.checkCancelled setup) (Render.checkCancelled setup') := by
  intro s s' related
  rw [checkCancelled_apply, checkCancelled_apply, ← flag related]
  cases setup.host.cancelled s.host with
  | true => exact .inr ⟨s', rfl, related⟩
  | false => exact ⟨s', rfl, related⟩

theorem load (loader : setup.loader = setup'.loader) {name : String}
    (loaded : ∀ {s s'}, rel s s' → rel { s with requests := .load name :: s.requests }
      { s' with requests := .load name :: s'.requests }) :
    Leads rel lost (Render.load setup name) (Render.load setup' name) := by
  intro s s' related
  simp only [Render.load, ← loader]
  cases setup.loader name with
  | some t => exact ⟨_, rfl, loaded related⟩
  | none => exact .inr ⟨_, rfl, loaded related⟩

variable (lock : setup.host.Lockstep setup'.host rel)
include lock

theorem invoke (name : String) (l : Lambda) (argument : String) :
    Leads rel lost (Render.invoke setup name l argument)
      (Render.invoke setup' name l argument) := by
  intro s s' related
  have called := lock.called related l argument
  simp only [Render.invoke, ← lock.answer related l argument]
  cases (setup.host.invoke l argument s.host).1 with
  | ok text => exact ⟨_, rfl, called⟩
  | error message => exact .inr ⟨_, rfl, called⟩

theorem capture {first : RenderM σ Unit} {second : RenderM τ Unit} (h : Leads rel lost first second) :
    Leads rel lost (Render.capture first) (Render.capture second) := by
  intro s s' related
  have head := h _ _ (lock.written related [])
  have same := lock.writes related
  simp only [Render.capture]
  cases ran : first { s with writes := [] } with
  | ok a t =>
    rw [ran] at head
    obtain ⟨t', ran', related'⟩ := head
    rw [ran']
    refine ⟨{ t' with writes := s'.writes }, ?_, same ▸ lock.written related' s.writes⟩
    simp only [RenderState.output, lock.writes related']
  | error error t =>
    rw [ran] at head
    rcases head with gone | ⟨t', ran', related'⟩
    · exact .inl gone
    · rw [ran']
      exact .inr ⟨{ t' with writes := s'.writes }, rfl, same ▸ lock.written related' s.writes⟩

end Requests

end Leads

end Render

end Mustache
