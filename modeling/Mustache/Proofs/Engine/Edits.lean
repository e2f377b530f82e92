import Mustache.Engine

/-! Runs of the calls that change an engine, in any order and for any names. A call that fails leaves
the engine as it was. -/
namespace Mustache

/-- A call that changes what an engine holds. -/
inductive Edit
  | add (name source : String)
  | insert (name : String) (t : Template)
  | reload (name source : String)
  | remove (name : String)

/-- The template that a call puts under a name if it succeeds. -/
inductive Edit.Provides : Edit → String → Template → Prop
  | add {name source : String} {t : Template} (parsed : Template.parse source = .ok t) :
    Provides (.add name source) name t
  | insert (name : String) (t : Template) : Provides (.insert name t) name t
  | reload {name source : String} {t : Template} (parsed : Template.parse source = .ok t) :
    Provides (.reload name source) name t

/-- What a call gives back: nothing, an error, or the template that it has replaced or removed. -/
inductive Reply
  | done
  | failed (error : Error)
  | previous (t : Option Template)

namespace Engine

/-- What a call that can fail gives back, and the engine behind it. -/
def settle (e : Engine) : Except Error Engine → Reply × Engine
  | .ok after => (.done, after)
  | .error error => (.failed error, e)

def edit (e : Engine) : Edit → Reply × Engine
  | .add name source => e.settle (e.add name source)
  | .insert name t => (.previous (e.insert name t).1, (e.insert name t).2)
  | .reload name source => e.settle (e.reload name source)
  | .remove name => (.previous (e.remove name).1, (e.remove name).2)

/-- The engine behind a run of calls. -/
def edited (e : Engine) (edits : List Edit) : Engine := edits.foldl (fun e x => (e.edit x).2) e

/-- All a call does to an engine: nothing, or it puts the template that it provides under its name, or
takes a template out. -/
inductive Becomes (e : Engine) (x : Edit) : Engine → Prop
  | same : Becomes e x e
  | put {name : String} {t : Template} (provided : x.Provides name t) : Becomes e x (e.put name t)
  | removed (name : String) : Becomes e x (e.remove name).2

theorem becomes_settle_reload {e : Engine} {x : Edit} {name source : String}
    (provided : ∀ t, Template.parse source = .ok t → x.Provides name t) :
    e.Becomes x (e.settle (e.reload name source)).2 := by
  unfold reload
  cases parsed : Template.parse source with
  | error error => exact .same
  | ok t => exact .put (provided t parsed)

theorem becomes_edit (e : Engine) (x : Edit) : e.Becomes x (e.edit x).2 := by
  cases x with
  | add name source =>
    simp only [edit, add]
    split
    · exact .same
    · exact becomes_settle_reload fun _ => .add
  | insert name t => exact .put (.insert name t)
  | reload name source => exact becomes_settle_reload fun _ => .reload
  | remove name => exact .removed name

section Runs
variable {e : Engine} {x : Edit}

/-- What holds before a run of calls, and behind a call if it holds before it, holds behind the run. -/
theorem edited_induction {p : Engine → Prop} (step : ∀ {e x after}, p e → e.Becomes x after → p after)
    (start : p e) (edits : List Edit) : p (e.edited edits) := by
  induction edits generalizing e with
  | nil => exact start
  | cons x rest ih => exact ih (step start (e.becomes_edit x))

theorem config_edited (e : Engine) (edits : List Edit) : (e.edited edits).config = e.config := by
  refine edited_induction (p := fun after => after.config = e.config) (fun same becomes => ?_) rfl edits
  cases becomes <;> exact same

/-- Something holds of every template and the name that it is found under. -/
def Holds (p : String → Template → Prop) (e : Engine) : Prop :=
  ∀ name t, e.get? name = some t → p name t

variable {p : String → Template → Prop}

theorem holds_new (config : Config) : (new config).Holds p := fun _ _ found => nomatch found

theorem Holds.put (h : e.Holds p) {name : String} {t : Template} (new : p name (t.withName name)) :
    (e.put name t).Holds p := by
  intro other u found
  rw [get?, Engine.put, Entries.get?_insert] at found
  split at found
  · rename_i same
    obtain rfl := Option.some.inj found
    exact same ▸ new
  · exact h other u found

theorem Holds.remove (h : e.Holds p) (name : String) : (e.remove name).2.Holds p := by
  intro other u found
  rw [get?, Engine.remove, Entries.get?_erase] at found
  split at found
  · cases found
  · exact h other u found

theorem Holds.becomes {after : Engine} (h : e.Holds p)
    (provided : ∀ {name t}, x.Provides name t → p name (t.withName name))
    (becomes : e.Becomes x after) : after.Holds p := by
  cases becomes with
  | same => exact h
  | put new => exact h.put (provided new)
  | removed name => exact h.remove name

/-- Behind any run of calls, every template has the name that it is found under. -/
theorem named_edited (config : Config) (edits : List Edit) :
    ((new config).edited edits).Holds fun name t => t.name = some name :=
  edited_induction (fun named becomes => named.becomes (fun _ => rfl) becomes) (holds_new config) edits

end Runs
end Engine
end Mustache
