import Mustache.Proofs.Render.Ensures

/-! The journal of a render, and what it says. Whenever a render comes to a node it writes down which
nodes are being rendered there, one inside of the other. They lie inside of each other in the way the
handlers go down; whatever has been looked up is the name of a partial that was visited; and a render
that fails has failed at the visit it made last, unless it would have gone too deep. -/
namespace Mustache
variable {σ : Type} {loader : Loader} {top : Env} {nodes : List Node}

/-- The visits made, newest first, each with those it lies inside of, from the inside out. -/
abbrev Journal := List (List Visit)

/-- Writes each visit down before it is made. -/
def Render.journaled : Notes σ Journal := fun v around s => (v :: around) :: s.host.2

namespace Renderer
open Render (final outcome)

/-- Renders nodes in order up to the first failure, and gives back the journal besides. -/
def acceptRecorded (r : Renderer σ) (nodes : List Node) :
    Except Error Unit × Renderer σ × Journal :=
  let ran := r.noted Render.journaled [] nodes
  (outcome ran, { r with state := (final ran).plain }, (final ran).host.2)

/-- The journal of rendering nodes. -/
def journal (r : Renderer σ) (nodes : List Node) : Journal := (r.acceptRecorded nodes).2.2

/-- The journal changes nothing. -/
theorem acceptRecorded_eq (r : Renderer σ) (nodes : List Node) :
    r.acceptRecorded nodes = ((r.accept nodes).1, (r.accept nodes).2, r.journal nodes) := by
  rw [r.accept_eq_noted Render.journaled [] nodes]
  rfl

end Renderer

/-- A visit inside of others, which are given from the inside out. The outermost one is that of one of
the nodes in the surroundings at the top. -/
inductive Nested (loader : Loader) (top : Env) (nodes : List Node) : Visit → List Visit → Prop
  | outermost {n : Node} (mem : n ∈ nodes) : Nested loader top nodes ⟨top, n⟩ []
  | inside {v : Visit} {around : List Visit} {env : Env} {inner : List Node} {n : Node}
    (outer : Nested loader top nodes v around) (way : v.Below loader env inner) (mem : n ∈ inner) :
    Nested loader top nodes ⟨env, n⟩ (v :: around)

/-- Each visit around another lies inside of those that are further out. -/
theorem Nested.around {v w : Visit} {inner outer : List Visit}
    (h : Nested loader top nodes w (inner ++ v :: outer)) : Nested loader top nodes v outer := by
  induction inner generalizing w with
  | nil =>
    cases h with
    | inside outer => exact outer
  | cons u inner ih =>
    cases h with
    | inside outer => exact ih outer

/-- A journal that accounts for what has been asked for since `asked`. -/
structure Accounts (loader : Loader) (top : Env) (nodes : List Node) (asked requests : List Request)
    (journal : Journal) : Prop where
  nested {v : Visit} {around : List Visit} (mem : v :: around ∈ journal) :
    Nested loader top nodes v around
  loads {name : String} (mem : .load name ∈ requests) :
    .load name ∈ asked ∨ ∃ v around, v :: around ∈ journal ∧ v.LooksUp name

namespace Accounts
variable {asked requests : List Request} {journal : Journal}

theorem empty (asked : List Request) : Accounts loader top nodes asked asked [] :=
  ⟨nofun, .inl⟩

theorem visited (h : Accounts loader top nodes asked requests journal) {v : Visit}
    {around : List Visit} (nested : Nested loader top nodes v around) :
    Accounts loader top nodes asked requests ((v :: around) :: journal) where
  nested mem := by
    rcases List.mem_cons.1 mem with same | earlier
    · obtain ⟨rfl, rfl⟩ := List.cons.inj same
      exact nested
    · exact h.nested earlier
  loads mem := (h.loads mem).imp_right fun ⟨v, around, mem, asks⟩ =>
    ⟨v, around, List.mem_cons_of_mem _ mem, asks⟩

theorem called (h : Accounts loader top nodes asked requests journal) (l : Lambda)
    (argument : String) : Accounts loader top nodes asked (.call l argument :: requests) journal where
  nested := h.nested
  loads mem := (List.mem_cons.1 mem).elim nofun h.loads

theorem loaded (h : Accounts loader top nodes asked requests journal) {v : Visit}
    {around : List Visit} {name : String} (mem : v :: around ∈ journal) (asks : v.LooksUp name) :
    Accounts loader top nodes asked (.load name :: requests) journal where
  nested := h.nested
  loads {other} looked := by
    rcases List.mem_cons.1 looked with same | earlier
    · obtain rfl := Request.load.inj same
      exact .inr ⟨v, around, mem, asks⟩
    · exact h.loads earlier

end Accounts

/-- A failure at the visit written down last, or one for going too deep. -/
def FailsAt (setup : Setup σ) (error : Error) (journal : Journal) : Prop :=
  error = .depthExceeded setup.config.maxDepth ∨
    ∃ v around earlier, journal = (v :: around) :: earlier ∧ v.Raises setup error

theorem Visit.Raises.of_noting {ν : Type} {setup : Setup σ} {v : Visit} {error : Error}
    (h : v.Raises (setup.noting ν) error) : v.Raises setup error := by
  cases h with
  | cancelled flag => exact .cancelled flag
  | missing tag absent strict => exact .missing tag absent strict
  | conversion tag found textless => exact .conversion tag found textless
  | fault fault => exact .fault fault
  | lambda found about => exact .lambda found about

namespace Render
variable (top nodes) (setup : Setup σ) (asked : List Request)

/-- So far the journal accounts for all that has been asked for. -/
def Accounted : Asked (σ × Journal) := fun requests s =>
  Accounts setup.loader top nodes asked requests s.2

/-- The journal accounts for all that has been asked for, and shows where the render has failed. -/
def Explained (error : Error) : Asked (σ × Journal) := fun requests s =>
  Accounts setup.loader top nodes asked requests s.2 ∧ FailsAt setup error s.2

/-- While a handler has not gone down, its visit is the one written down last. -/
theorem contract_recorded (v : Visit) (around : List Visit) :
    Contract (setup.noting Journal) v
      (fun requests s => Accounted top nodes setup asked requests s ∧
        ∃ earlier, s.2 = (v :: around) :: earlier)
      (Accounted top nodes setup asked) (Explained top nodes setup asked) where
  begun h := h.1
  called h l argument := ⟨h.1.called l argument, h.2⟩
  loaded := by
    rintro requests s name ⟨accounted, earlier, last⟩ asks
    have mem : v :: around ∈ s.2 := last ▸ List.mem_cons_self
    exact ⟨accounted.loaded mem asks, earlier, last⟩
  raised := by
    rintro requests s error ⟨accounted, earlier, last⟩ raises
    exact ⟨accounted, .inr ⟨v, around, earlier, last, raises.of_noting⟩⟩

theorem ensures_journaled {v : Visit} {around : List Visit}
    (nested : Nested setup.loader top nodes v around) {fails : Error → Asked (σ × Journal)} :
    Ensures (Accounted top nodes setup asked)
      (fun requests s => Accounted top nodes setup asked requests s ∧
        ∃ earlier, s.2 = (v :: around) :: earlier) fails (note journaled v around) :=
  fun s h => ⟨Accounts.visited h nested, s.host.2, rfl⟩

theorem ensures_recorded (room : Nat) {around : List Visit} {env : Env} {inner : List Node}
    (nested : ∀ n ∈ inner, Nested setup.loader top nodes ⟨env, n⟩ around) :
    Ensures (Accounted top nodes setup asked) (Accounted top nodes setup asked)
      (Explained top nodes setup asked) (noted setup journaled room around env inner) := by
  refine ensures_noted (fun _ => Nested setup.loader top nodes) (fun _ _ h => ⟨h, .inl rfl⟩)
    (fun outer way _ => outer.inside way) ?_ room nested
  intro room v around deeper here hd
  refine .bind (ensures_journaled top nodes setup asked here) fun _ => ?_
  exact ensures_visit (contract_recorded top nodes setup asked v around) hd

end Render

namespace Renderer
variable (r : Renderer σ) (nodes)

/-- The journal accounts for every lookup of a render, and shows where it fails. -/
theorem accounts_journal :
    Accounts r.setup.loader r.env nodes r.state.requests (r.accept nodes).2.state.requests
        (r.journal nodes) ∧
      ∀ error, (r.accept nodes).1 = .error error → FailsAt r.setup error (r.journal nodes) := by
  have ensured := Render.ensures_recorded r.env nodes r.setup r.state.requests (r.room + 1)
    (fun n mem => .outermost mem) (r.state.noting []) (.empty _)
  rw [r.accept_eq_noted Render.journaled [] nodes]
  unfold journal acceptRecorded
  cases ran : r.noted Render.journaled [] nodes with
  | ok a s =>
    unfold noted at ran
    rw [ran] at ensured
    exact ⟨ensured, nofun⟩
  | error error s =>
    unfold noted at ran
    rw [ran] at ensured
    refine ⟨ensured.1, fun other same => ?_⟩
    obtain rfl := Except.error.inj same
    exact ensured.2

end Renderer

end Mustache
