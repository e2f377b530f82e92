import Mustache.Proofs.Render.Ensures

/-! The flag that cancels a render. A handler looks at it when it is entered and never again, and asks
for one thing at most. So from the moment the flag is up nothing more is asked for, and the next
handler that is entered ends the render. Up to there it is the render without a flag. -/
namespace Mustache
variable {σ ν : Type}

/-- The state of a host after all that has been asked for, newest first. It does not take part in
lookups. -/
def Host.after (h : Host σ) (s : σ) : List Request → σ
  | [] => s
  | .call l argument :: earlier => (h.invoke l argument (h.after s earlier)).2
  | .load _ :: earlier => h.after s earlier

/-- Whether the flag is up after all that has been asked for. -/
def Host.flag (h : Host σ) (s : σ) (asked : List Request) : Bool := h.cancelled (h.after s asked)

/-- The same render with no flag attached. -/
def Setup.unflagged (setup : Setup σ) : Setup σ :=
  { setup with host := { setup.host with cancelled := fun _ => false } }

/-- A handler that is entered inside of others, with what has been asked for until then, and the state
the host is in. -/
structure Arrival (σ : Type) where
  visit : Visit
  around : List Visit
  asked : List Request
  host : σ

/-- What is known of a render while it is watched. It is halted as soon as a handler is entered with
the flag up. -/
structure Watched (h : Host σ) (start : σ) (halted : Prop) (asked : List Request)
    (s : σ × List (Arrival σ)) : Prop where
  host : s.1 = h.after start asked
  down {request : Request} {earlier : List Request} (made : request :: earlier <:+ asked) :
    h.flag start earlier = false
  arrived {a : Arrival σ} (mem : a ∈ s.2) : a.asked <:+ asked ∧ a.host = h.after start a.asked
  halted_iff : halted ↔ ∃ a ∈ s.2, h.cancelled a.host = true

namespace Watched
variable {h : Host σ} {start : σ} {halted halted' : Prop} {asked : List Request}
  {s : σ × List (Arrival σ)}

theorem unasked (h : Host σ) (start : σ) : Watched h start False [] (start, []) where
  host := rfl
  down made := nomatch List.eq_nil_of_suffix_nil made
  arrived := nofun
  halted_iff := by simp

theorem congr (w : Watched h start halted asked s) (same : halted' ↔ halted) :
    Watched h start halted' asked s :=
  ⟨w.host, w.down, w.arrived, same.trans w.halted_iff⟩

theorem request (w : Watched h start halted asked s) (flag : h.flag start asked = false)
    {request : Request} {t : σ} (answered : t = h.after start (request :: asked)) :
    Watched h start halted (request :: asked) (t, s.2) where
  host := answered
  down made := by
    rcases List.suffix_cons_iff.1 made with same | earlier
    · rw [(List.cons.inj same).2]
      exact flag
    · exact w.down earlier
  arrived mem := (w.arrived mem).imp_left fun earlier => earlier.trans (List.suffix_cons _ _)
  halted_iff := w.halted_iff

theorem arrive (w : Watched h start False asked s) (v : Visit) (around : List Visit) :
    Watched h start (h.flag start asked = true) asked (s.1, ⟨v, around, asked, s.1⟩ :: s.2) where
  host := w.host
  down := w.down
  arrived mem := by
    rcases List.mem_cons.1 mem with rfl | earlier
    · exact ⟨List.suffix_rfl, w.host⟩
    · exact w.arrived earlier
  halted_iff := by
    have none : ¬ ∃ a ∈ s.2, h.cancelled a.host = true := w.halted_iff.2
    rw [List.exists_mem_cons_iff, or_iff_left none, w.host]
    rfl

/-- Once the flag is up nothing more is asked for. -/
theorem eq_of_flag (w : Watched h start halted asked s) {until_then : List Request}
    (earlier : until_then <:+ asked) (flag : h.flag start until_then = true) :
    until_then = asked := by
  obtain ⟨later, rfl⟩ := earlier
  rcases List.eq_nil_or_concat later with rfl | ⟨newest, request, rfl⟩
  · rfl
  -- else something was asked for with the flag up
  · have made : request :: until_then <:+ newest.concat request ++ until_then := by simp
    rw [w.down made] at flag
    cases flag

end Watched

namespace Render

section Watched
variable (setup : Setup σ) (start : σ)

/-- The handlers entered so far, newest first. -/
def arrivals : Notes σ (List (Arrival σ)) := fun v around s =>
  ⟨v, around, s.requests, s.host.1⟩ :: s.host.2

/-- A handler has found the flag down when it asks for something. -/
theorem stages_watched (v : Visit) :
    Stages (setup.noting (List (Arrival σ))) v
      (fun asked s => Watched setup.host start False asked s ∧
        setup.host.flag start asked = false)
      (Watched setup.host start False) (Watched setup.host start False)
      fun error => Watched setup.host start (error = .cancelled) where
  waived h := h.1
  called h l argument := h.1.request h.2 (by rw [h.1.host]; rfl)
  loaded h _ := h.1.request h.2 h.1.host
  begun h := h
  raised h _ uncancelled := h.congr (iff_of_false uncancelled id)

theorem ensures_arrival (v : Visit) (around : List Visit)
    {fails : Error → Asked (σ × List (Arrival σ))} :
    Ensures (Watched setup.host start False)
      (fun asked => Watched setup.host start (setup.host.flag start asked = true) asked) fails
      (note arrivals v around) :=
  fun _ w => w.arrive v around

/-- The flag lets a handler begin only while it is down. -/
theorem ensures_uncancelled :
    Ensures (fun asked => Watched setup.host start (setup.host.flag start asked = true) asked)
      (fun asked s => Watched setup.host start False asked s ∧
        setup.host.flag start asked = false)
      (fun error => Watched setup.host start (error = .cancelled))
      (checkCancelled (setup.noting (List (Arrival σ)))) := by
  intro s w
  have flag : (setup.noting (List (Arrival σ))).host.cancelled s.host =
      setup.host.flag start s.requests := congrArg setup.host.cancelled w.host
  rw [checkCancelled_apply, flag]
  cases up : setup.host.flag start s.requests with
  | true => exact w.congr (iff_of_true rfl up)
  | false => exact ⟨w.congr (by rw [up]; simp), up⟩

theorem ensures_watched (room : Nat) (around : List Visit) (env : Env) (nodes : List Node) :
    Ensures (Watched setup.host start False) (Watched setup.host start False)
      (fun error => Watched setup.host start (error = .cancelled))
      (noted setup arrivals room around env nodes) := by
  refine ensures_noted (fun _ _ _ => True) (fun _ _ w => w.congr (by simp))
    (fun _ _ _ _ => trivial) ?_ room fun _ _ => trivial
  intro room v around deeper _ hd
  refine .bind (ensures_arrival setup start v around) fun _ => ?_
  rw [visit_eq]
  refine .bind (ensures_uncancelled setup start) fun _ => ?_
  exact ensures_handle (stages_watched setup start v) hd

end Watched

/-- Apart from a look at the flag a node is visited as without one. -/
theorem visit_unflagged (setup : Setup σ) (deeper : Deeper σ) (env : Env) (n : Node)
    (s : RenderState σ) :
    visit setup deeper env n s =
      if setup.host.cancelled s.host then .error .cancelled s
      else visit setup.unflagged deeper env n s := by
  have same : handle setup deeper env n = handle setup.unflagged deeper env n := by
    cases n <;> rfl
  rw [visit_eq, visit_eq, bind_apply, bind_apply, checkCancelled_apply, checkCancelled_apply, same]
  cases setup.host.cancelled s.host <;> rfl

theorem leads_of_unflagged (setup : Setup σ) {deeper : Deeper σ} {env : Env} {n : Node}
    {second : RenderM σ Unit}
    (h : Leads (· = ·) (· = .cancelled) (visit setup.unflagged deeper env n) second) :
    Leads (· = ·) (· = .cancelled) (visit setup deeper env n) second := by
  intro s s' same
  rw [visit_unflagged]
  cases setup.host.cancelled s.host with
  | true => exact .inl rfl
  | false => exact h s s' same

/-- Unless it is cancelled, a render is the one without a flag, and what is noted is the same. By
induction on the levels left. -/
theorem leads_unflagged (setup : Setup σ) (notes : Notes σ ν) (room : Nat) (around : List Visit) :
    Deeper.Leads (· = ·) (· = .cancelled) (· = ·) (· = ·) (noted setup notes room around)
      (noted setup.unflagged notes room around) := by
  induction room generalizing around with
  | zero => exact fun _ _ => .throw _
  | succ room ih =>
    intro a b nodes _ env same
    subst same
    refine .forM (List.forall₂_same.2 fun n _ => ?_)
    -- in the same surroundings, so that the same is noted
    obtain rfl : a = b := env.eq nofun
    have visited := leads_visit (setup.unflagged.noting ν).host.lockstep_eq
      (setup.config.leads_refl _) rfl Context.matching_eq (fun _ _ => rfl) (ih (⟨a, n⟩ :: around))
      env (n.congruent_refl fun _ => rfl)
    refine .bind (fun s s' same => ⟨_, rfl, by rw [same]⟩) fun _ => ?_
    exact leads_of_unflagged (setup.noting ν) visited

end Render

namespace Renderer
open Render (final outcome)
variable (r : Renderer σ) (nodes : List Node)

/-- Renders nodes and keeps watch over the handlers that are entered. -/
def watched : EStateM.Result Error (RenderState (σ × List (Arrival σ))) Unit :=
  Render.noted r.setup Render.arrivals (r.room + 1) [] r.env nodes (r.state.noting [])

/-- The handlers that are entered while nodes are rendered, newest first. -/
def arrivals : List (Arrival σ) := (final (r.watched nodes)).host.2

/-- Keeping watch changes nothing. -/
theorem run_eq_watched :
    r.run nodes = ⟨(outcome (r.watched nodes)).map fun _ => (final (r.watched nodes)).plain.output,
      (final (r.watched nodes)).plain⟩ := by
  unfold run
  rw [r.accept_eq_noted Render.arrivals [] nodes]
  rfl

theorem run_eq_error_iff (error : Error) :
    (r.run nodes).result = .error error ↔ outcome (r.watched nodes) = .error error := by
  rw [run_eq_watched]
  cases outcome (r.watched nodes) <;> simp [Except.map]

theorem watched_run (unasked : r.state.requests = []) :
    Watched r.setup.host r.state.host ((r.run nodes).result = .error .cancelled)
      (r.run nodes).state.requests ((r.run nodes).state.host, r.arrivals nodes) := by
  have ensured := Render.ensures_watched r.setup r.state.host (r.room + 1) [] r.env nodes
    (r.state.noting []) (unasked ▸ .unasked r.setup.host r.state.host)
  rw [run_eq_error_iff, run_eq_watched]
  unfold arrivals
  cases ran : r.watched nodes with
  | ok a s =>
    unfold watched at ran
    rw [ran] at ensured
    exact ensured.congr (by simp [outcome])
  | error error s =>
    unfold watched at ran
    rw [ran] at ensured
    exact ensured.congr (by simp [outcome])

theorem watched_unflagged (uncancelled : outcome (r.watched nodes) ≠ .error .cancelled) :
    r.watched nodes = watched { r with setup := r.setup.unflagged } nodes := by
  have ends : Render.Ends (· = ·) (· = .cancelled) (r.watched nodes)
      (watched { r with setup := r.setup.unflagged } nodes) :=
    Render.Leads.ends (Render.leads_unflagged r.setup Render.arrivals (r.room + 1) []
      (Env.leads_refl (fun _ => rfl) _ r.env) rfl) rfl
  rcases ends.eq_or_lost with same | ⟨error, failed, rfl⟩
  · exact same.symm
  · exact absurd failed uncancelled

/-- A render that is not cancelled is the one without a flag, and enters the same handlers. -/
theorem run_unflagged (uncancelled : (r.run nodes).result ≠ .error .cancelled) :
    r.run nodes = run { r with setup := r.setup.unflagged } nodes ∧
      r.arrivals nodes = arrivals { r with setup := r.setup.unflagged } nodes := by
  have same := r.watched_unflagged nodes (mt (r.run_eq_error_iff nodes .cancelled).2 uncancelled)
  rw [run_eq_watched, run_eq_watched, arrivals, arrivals, same]
  exact ⟨rfl, rfl⟩

/-- From the moment the flag is up nothing more is asked for, neither of a lambda nor of the loader,
and a render is cancelled just when a handler is entered after that moment. A render that is not
cancelled is the one without a flag, handler by handler. So where it comes to a text, no handler was
left to be entered when the flag went up, and where the flag never goes up it makes no difference that
there is one. -/
theorem quiet_once_flagged (setup : Setup σ) (data : Value) (root : Option String) (host : σ)
    (nodes : List Node) :
    let r := fresh setup data root host
    let free := fresh setup.unflagged data root host
    let last := r.run nodes
    let h := setup.host
    last.state.host = h.after host last.state.requests ∧
    (∀ asked, asked <:+ last.state.requests → h.flag host asked = true →
      asked = last.state.requests) ∧
    (∀ a ∈ r.arrivals nodes, a.asked <:+ last.state.requests ∧ a.host = h.after host a.asked) ∧
    (last.result = .error .cancelled ↔ ∃ a ∈ r.arrivals nodes, h.cancelled a.host = true) ∧
    (last.result ≠ .error .cancelled →
      last = free.run nodes ∧ r.arrivals nodes = free.arrivals nodes) ∧
    (∀ text, last.result = .ok text → ∀ a ∈ free.arrivals nodes, h.cancelled a.host = false) ∧
    ((∀ asked, asked <:+ last.state.requests → h.flag host asked = false) →
      last = free.run nodes) := by
  intro r free last h
  have w : Watched h host (last.result = .error .cancelled) last.state.requests
      (last.state.host, r.arrivals nodes) := by
    cases root <;> exact watched_run r nodes rfl
  have unflagged (uncancelled : last.result ≠ .error .cancelled) :
      last = free.run nodes ∧ r.arrivals nodes = free.arrivals nodes := by
    cases root <;> exact run_unflagged r nodes uncancelled
  have down (uncancelled : last.result ≠ .error .cancelled) (a) (mem : a ∈ free.arrivals nodes) :
      h.cancelled a.host = false := by
    rw [← (unflagged uncancelled).2] at mem
    exact Bool.eq_false_iff.2 fun up => uncancelled (w.halted_iff.2 ⟨a, mem, up⟩)
  refine ⟨w.host, fun asked => w.eq_of_flag, fun a => w.arrived, w.halted_iff, unflagged,
    fun text ok => down (by rw [ok]; nofun), fun never => (unflagged fun cancelled => ?_).1⟩
  obtain ⟨a, mem, up⟩ := w.halted_iff.1 cancelled
  obtain ⟨earlier, host_eq⟩ := w.arrived mem
  rw [host_eq, show h.cancelled (h.after host a.asked) = false from never a.asked earlier] at up
  cases up

/-- A lambda that raises the flag in the first round of a loop is the last thing that is called. -/
example :
    let children := [.interpolation "stop" true, .interpolation "." true]
    let nodes : List Node := [.sect (.ofChildren "items" false children)]
    let data := Value.map [("items", .list [.int 1, .int 2]), ("stop", .lambda ⟨0⟩)]
    let run := fun attached =>
      (fresh ⟨.standard, .empty, scriptedHost [⟨"stop", .cancel ""⟩] attached⟩ data none .start).run
        nodes
    (run true).result = .error .cancelled ∧ (run true).state.calls = [(⟨0⟩, "")] ∧
      (run false).result = .ok "12" := by
  decide +kernel

end Renderer

end Mustache
