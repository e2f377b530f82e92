import Mustache.Error

/-! The names of the partials being rendered, which must not repeat. -/
namespace Mustache

/-- The names entered and not yet left, outermost first. -/
structure InclusionPath where
  names : List String
  deriving DecidableEq, Inhabited

namespace InclusionPath

def empty : InclusionPath := ⟨[]⟩

/-- A path that begins with the template being rendered. -/
def rooted (name : String) : InclusionPath := ⟨[name]⟩

def contains (p : InclusionPath) (name : String) : Bool := p.names.contains name

/-- Enters a name. One that is on the path already closes a cycle. -/
def enter (p : InclusionPath) (name : String) : Except Error InclusionPath :=
  if p.contains name then .error (.inclusionCycle name (p.names ++ [name]))
  else .ok ⟨p.names ++ [name]⟩

/-- Leaves the name entered last. -/
def exit (p : InclusionPath) : InclusionPath := ⟨p.names.dropLast⟩

theorem enter_of_mem {p : InclusionPath} {name : String} (h : name ∈ p.names) :
    p.enter name = .error (.inclusionCycle name (p.names ++ [name])) := by
  have held : p.contains name = true := List.contains_iff_mem.2 h
  simp only [enter, held, if_true]

theorem enter_eq_ok {p q : InclusionPath} {name : String} (h : p.enter name = .ok q) :
    name ∉ p.names ∧ q.names = p.names ++ [name] := by
  unfold enter at h
  split at h
  · cases h
  · rename_i hn
    obtain rfl := Except.ok.inj h
    exact ⟨fun mem => hn (List.contains_iff_mem.2 mem), rfl⟩

theorem enter_eq_error {p : InclusionPath} {name : String} {error : Error}
    (h : p.enter name = .error error) :
    name ∈ p.names ∧ error = .inclusionCycle name (p.names ++ [name]) := by
  unfold enter at h
  split at h
  · rename_i hn
    obtain rfl := Except.error.inj h
    exact ⟨List.contains_iff_mem.1 hn, rfl⟩
  · cases h

theorem exit_of_enter {p q : InclusionPath} {name : String} (h : p.enter name = .ok q) :
    q.exit = p := by
  simp [exit, (enter_eq_ok h).2]

/-- Only a new name can be entered, so a path never holds a name twice. -/
theorem nodup_of_enter {p q : InclusionPath} {name : String} (h : p.enter name = .ok q)
    (hp : p.names.Nodup) : q.names.Nodup := by
  obtain ⟨new, hq⟩ := enter_eq_ok h
  rw [hq, List.nodup_append]
  refine ⟨hp, by simp, fun a ha b hb e => ?_⟩
  obtain rfl := List.mem_singleton.1 hb
  exact new (e ▸ ha)

end InclusionPath

end Mustache
