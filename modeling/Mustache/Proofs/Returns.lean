/-! Programs that call themselves, without a bound on how often. A program is given as what one call
does, where the function that it calls is still open. -/
namespace Mustache
variable {ι S R : Type}

/-- What one call of a program does, given what is called within it: it takes an argument and a state
to a result. -/
abbrev Program (ι S R : Type) := (ι → S → R) → ι → S → R

/-- A call returns with a result. The calls within it return, and nothing but what they return decides
the result. -/
inductive Returns (program : Program ι S R) : ι → S → R → Prop
  | intro {i : ι} {s : S} {r : R} (within : ι → S → R → Prop)
    (returned : ∀ j t q, within j t q → Returns program j t q)
    (decided : ∀ f : ι → S → R, (∀ j t q, within j t q → f j t = q) → program f i s = r) :
    Returns program i s r

namespace Returns
variable {program : Program ι S R} {i : ι} {s : S} {r : R}

/-- Whatever solves the equation of the program has the result that the call returns with. -/
theorem eq_of_solves (h : Returns program i s r) {f : ι → S → R} (solves : program f = f) :
    f i s = r := by
  induction h with
  | intro within _ decided ih =>
    rw [← solves]
    exact decided f ih

/-- A call returns when these calls do and decide its result. -/
theorem of_calls (calls : List (ι × S × R))
    (returned : ∀ call ∈ calls, Returns program call.1 call.2.1 call.2.2)
    (decided : ∀ f : ι → S → R, (∀ call ∈ calls, f call.1 call.2.1 = call.2.2) →
      program f i s = r) : Returns program i s r :=
  .intro (fun j t q => (j, t, q) ∈ calls) (fun j t q mem => returned (j, t, q) mem)
    fun f agrees => decided f fun call mem => agrees call.1 call.2.1 call.2.2 mem

/-- A program that calls nothing but itself again does not return. -/
example : ¬ ∃ r, Returns (fun again : Unit → Unit → Bool => again) () () r := by
  rintro ⟨r, h⟩
  cases (h.eq_of_solves (f := fun _ _ => true) rfl).trans
    (h.eq_of_solves (f := fun _ _ => false) rfl).symm

/-- Where each call decides its result from calls that are further down, every call returns. -/
theorem of_descent (value : ι → S → R) (p : ι → S → Prop) (height : ι → S → Nat)
    (step : ∀ {i s} (f : ι → S → R), p i s →
      (∀ j t, p j t → height j t < height i s → f j t = value j t) →
      program f i s = value i s) (here : p i s) :
    Returns program i s (value i s) := by
  induction bound : height i s using Nat.strongRecOn generalizing i s with
  | ind n ih =>
    subst bound
    refine .intro (fun j t q => p j t ∧ height j t < height i s ∧ q = value j t) ?_ ?_
    · rintro j t q ⟨there, lower, rfl⟩
      exact ih _ lower there rfl
    · intro f agrees
      exact step f here fun j t there lower => agrees j t _ ⟨there, lower, rfl⟩

end Returns

/-- What is noted when a handler is entered: the counter of levels at that moment, the visit, and the
visits around it, from the inside out, each of which is on one way down. -/
structure Entry (V : Type) where
  counter : Nat
  visit : V
  around : List V

/-- The handlers that were entered, newest first. -/
abbrev Trace (V : Type) := List (Entry V)

/-- The counter shows how many ways down the handler is inside of, and these are within the limit. -/
structure Entry.Counted {V : Type} (limit : Nat) (e : Entry V) : Prop where
  counter : e.counter = e.around.length
  within : e.counter ≤ limit

end Mustache
