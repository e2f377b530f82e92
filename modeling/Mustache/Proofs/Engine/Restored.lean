import Mustache.Proofs.Doc.Engine
import Mustache.Proofs.Engine.Edits
import Mustache.Scripted

/-! Sessions with an engine, which is changed and asked, and now and then stored and restored from its
stored form. This does not show in any answer: what is stored of a template is enough to read it again,
because every template in the engine has the nodes of its source. -/
namespace Mustache

/-- A template that is inserted has the nodes of its source. Parsed templates have. -/
def Edit.Read : Edit → Prop
  | .insert _ t => t.Reread
  | .add _ _ | .reload _ _ | .remove _ => True

theorem Edit.Provides.reread {x : Edit} {name : String} {t : Template} (h : x.Provides name t)
    (read : x.Read) : t.Reread := by
  cases h with
  | add parsed => exact Template.reread_of_parse parsed
  | insert => exact read
  | reload parsed => exact Template.reread_of_parse parsed

namespace Engine

/-- What an engine is stored as can be restored. -/
structure Restorable (e : Engine) : Prop where
  sorted : Entries.Sorted e.templates
  reread : e.Holds fun _ t => t.Reread
  fits : e.config.Fits

namespace Restorable
variable {e after : Engine} {x : Edit}

theorem new {config : Config} (fits : config.Fits) : (new config).Restorable :=
  ⟨Entries.sorted_nil, holds_new config, fits⟩

theorem becomes (h : e.Restorable) (read : x.Read) (becomes : e.Becomes x after) :
    after.Restorable := by
  have reread := h.reread.becomes (fun new => (new.reread read).withName _) becomes
  cases becomes with
  | same => exact h
  | put => exact ⟨h.sorted.insert _ _, reread, h.fits⟩
  | removed name => exact ⟨h.sorted.erase name, reread, h.fits⟩

theorem ofDoc_toDoc (h : e.Restorable) : ofDoc e.toDoc = .ok e := by
  refine Engine.ofDoc_toDoc h.sorted (fun pair mem => ?_) h.fits
  exact h.reread pair.1 pair.2 (h.sorted.get?_of_mem mem)

end Restorable

/-- What an engine can be asked. Every render begins with a state of its own. -/
inductive Question (σ : Type)
  | names
  | config
  | template (name : String)
  | render (name : String) (data : Value) (state : σ)
  | validate (name : String)
  | dependencies (name : String)
  | missing (name : String) (data : Value)

inductive Answer (σ : Type)
  | reply (r : Reply)
  | names (names : List String)
  | config (c : Config)
  | template (t : Option Template)
  | rendering (r : Rendering σ)
  | validation (result : Except Error Unit)
  | dependencies (result : Except Error Dependencies)
  | missing (names : List String)

variable {σ : Type}

def answer (host : Host σ) (e : Engine) : Question σ → Answer σ
  | .names => .names e.names
  | .config => .config e.config
  | .template name => .template (e.get? name)
  | .render name data state => .rendering (e.render host name data state)
  | .validate name => .validation (e.validate name)
  | .dependencies name => .dependencies (e.dependencies name)
  | .missing name data => .missing (e.missing name data)

/-- One step of a session. To restore is to put the engine that its stored form gives in its place. -/
inductive Step (σ : Type)
  | edit (x : Edit)
  | ask (q : Question σ)
  | restore

namespace Step

def lasting : Step σ → Bool
  | edit _ | ask _ => true
  | restore => false

def edit? : Step σ → Option Edit
  | edit x => some x
  | ask _ | restore => none

end Step

/-- All answers so far, newest first, and the engine. -/
structure Session (σ : Type) where
  answers : List (Answer σ)
  engine : Engine

namespace Session

def start (config : Config) : Session σ := ⟨[], .new config⟩

def take (host : Host σ) (s : Session σ) : Step σ → Except RestoreError (Session σ)
  | .edit x => .ok ⟨.reply (s.engine.edit x).1 :: s.answers, (s.engine.edit x).2⟩
  | .ask q => .ok { s with answers := s.engine.answer host q :: s.answers }
  | .restore => (ofDoc s.engine.toDoc).map fun engine => { s with engine }

/-- A session ends early only where the engine cannot be restored. -/
def run (host : Host σ) (s : Session σ) (steps : List (Step σ)) : Except RestoreError (Session σ) :=
  steps.foldlM (take host) s

variable {host : Host σ} {s : Session σ}

theorem take_restore (h : s.engine.Restorable) : s.take host .restore = .ok s := by
  rw [take, h.ofDoc_toDoc]
  rfl

/-- By induction on the steps. The engine stays restorable, so that a step which restores it leaves the
session as it is. -/
theorem run_of_restorable (h : s.engine.Restorable) {steps : List (Step σ)}
    (read : ∀ x, .edit x ∈ steps → x.Read) :
    ∃ after, s.run host steps = .ok after ∧ s.run host (steps.filter Step.lasting) = .ok after ∧
      after.engine = s.engine.edited (steps.filterMap Step.edit?) ∧ after.engine.Restorable := by
  induction steps generalizing s with
  | nil => exact ⟨s, rfl, rfl, rfl, h⟩
  | cons step rest ih =>
    have later (x : Edit) (mem : .edit x ∈ rest) : x.Read := read x (List.mem_cons_of_mem _ mem)
    cases step with
    | edit x =>
      have kept := h.becomes (read x List.mem_cons_self) (s.engine.becomes_edit x)
      exact ih (s := ⟨.reply (s.engine.edit x).1 :: s.answers, (s.engine.edit x).2⟩) kept later
    | ask q => exact ih (s := { s with answers := s.engine.answer host q :: s.answers }) h later
    | restore =>
      obtain ⟨after, ran, others, engine, restorable⟩ := ih h later
      refine ⟨after, ?_, others, engine, restorable⟩
      rw [run, List.foldlM_cons, take_restore h]
      exact ran

/-- To store an engine and restore it, at any points of a session, always succeeds and does not show:
the session goes through, and it comes to the same answers and to the same engine as the session
without these steps. This is the engine that the calls alone lead to, those that fail among them. -/
theorem run_restoring {config : Config} (fits : config.Fits) (host : Host σ) (steps : List (Step σ))
    (read : ∀ x, .edit x ∈ steps → x.Read) :
    ∃ s, (start config).run host steps = .ok s ∧
      (start config).run host (steps.filter Step.lasting) = .ok s ∧
      s.engine = (Engine.new config).edited (steps.filterMap Step.edit?) ∧
      ofDoc s.engine.toDoc = .ok s.engine := by
  obtain ⟨s, ran, others, engine, restorable⟩ :=
    run_of_restorable (s := start config) (.new fits) read
  exact ⟨s, ran, others, engine, restorable.ofDoc_toDoc⟩

/-- A page whose name is taken, a side that cannot be read again, and a note that is removed. -/
theorem run_restoring_page :
    let config : Config := ⟨5, true, .falsey⟩
    let host := scriptedHost [] false
    let data : Value := .map [("x", .str "1")]
    let side : Template :=
      ⟨none, "(\x7b\x7bx\x7d\x7d)", [.text "(", .interpolation "x" true, .text ")"]⟩
    let steps : List (Step ScriptedState) :=
      [.edit (.add "page" "A \x7b\x7b>side\x7d\x7d"), .restore, .edit (.insert "side" side),
        .edit (.add "page" "B"), .restore, .restore, .ask (.render "page" data .start),
        .edit (.reload "side" "\x7b\x7b"), .edit (.add "note" ""), .edit (.remove "note"), .restore,
        .ask .names]
    config.Fits ∧ (∀ x, .edit x ∈ steps → x.Read) ∧
      ∃ s, (start config).run host steps = .ok s ∧
        (start config).run host (steps.filter Step.lasting) = .ok s ∧
        ofDoc s.engine.toDoc = .ok s.engine ∧ s.engine.names = ["page", "side"] ∧
        (s.engine.render host "page" data .start).result = .ok "A (1)" := by
  intro config host data side steps
  have fits : config.Fits := by decide
  have read (x : Edit) (mem : .edit x ∈ steps) : x.Read := by
    have reread : side.Reread := by decide +kernel
    simp only [steps, List.mem_cons, Step.edit.injEq, reduceCtorEq, List.not_mem_nil, or_false,
      false_or] at mem
    rcases mem with rfl | rfl | rfl | rfl | rfl | rfl
    exacts [trivial, reread, trivial, trivial, trivial, trivial]
  obtain ⟨s, ran, others, engine, restored⟩ := run_restoring fits host steps read
  refine ⟨fits, read, s, ran, others, restored, ?_⟩
  rw [engine]
  decide +kernel

end Session
end Engine
end Mustache
