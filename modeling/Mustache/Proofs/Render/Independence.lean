import Mustache.Proofs.Render.Restoration
import Mustache.Proofs.Render.Simulation
import Mustache.Scripted

/-! One renderer for many templates. If lambdas depend on their arguments alone, nothing that was
rendered before, well or not, shows in what is rendered next. -/
namespace Mustache

/-- Lambdas that remember nothing. One may raise the flag that cancels a render, but it does so
whatever it has been asked before. -/
structure Host.Stateless {σ : Type} (h : Host σ) : Prop where
  answer (l : Lambda) (argument : String) (s s' : σ) :
    (h.invoke l argument s).1 = (h.invoke l argument s').1
  flag {s s' : σ} (same : h.cancelled s = h.cancelled s') (l : Lambda) (argument : String) :
    h.cancelled (h.invoke l argument s).2 = h.cancelled (h.invoke l argument s').2

/-- The same has been written, under the same flag. -/
structure RenderState.SameWrites {σ : Type} (h : Host σ) (s s' : RenderState σ) : Prop where
  writes : s.writes = s'.writes
  flag : h.cancelled s.host = h.cancelled s'.host

theorem Host.Stateless.lockstep {σ : Type} {h : Host σ} (stateless : h.Stateless) :
    h.Lockstep h (RenderState.SameWrites h) where
  writes same := same.writes
  written same _ := ⟨rfl, same.flag⟩
  cancelled same := same.flag
  answer _ l argument := stateless.answer l argument _ _
  called same l argument := ⟨same.writes, stateless.flag same.flag l argument⟩
  loaded same _ := ⟨same.writes, same.flag⟩

/-- Accepts templates one after the other, whether or not they fail. -/
def Renderer.acceptEach {σ : Type} (r : Renderer σ) (templates : List Template) : Renderer σ :=
  templates.foldl (fun r t => (r.accept t.nodes).2) r

theorem Renderer.setup_accept {σ : Type} (r : Renderer σ) (nodes : List Node) :
    (r.accept nodes).2.setup = r.setup := by
  unfold accept
  split <;> rfl

theorem Renderer.setup_acceptEach {σ : Type} (r : Renderer σ) (templates : List Template) :
    (r.acceptEach templates).setup = r.setup := by
  induction templates generalizing r with
  | nil => rfl
  | cons t rest ih => exact (ih (r.accept t.nodes).2).trans (r.setup_accept t.nodes)

/-- A renderer that has not begun; a root name is on its path from the start. -/
def Renderer.fresh {σ : Type} (setup : Setup σ) (data : Value) (root : Option String) (host : σ) :
    Renderer σ :=
  (root.map (start setup data host).rootedAt).getD (start setup data host)

theorem Renderer.fresh_eq {σ : Type} (setup : Setup σ) (data : Value) (root : Option String)
    (host : σ) :
    fresh setup data root host =
      ⟨setup, { Env.ofData data with path := (root.map InclusionPath.rooted).getD .empty }, 0,
        .start host⟩ := by
  cases root <;> rfl

namespace InPlace
variable {σ : Type}

/-- A renderer that has not begun; a root name is on its path from the start. -/
def start (data : Value) (root : Option String) (host : σ) : InPlace σ :=
  ⟨.ofRoot data, .empty, (root.map InclusionPath.rooted).getD .empty, 0, "", .blank, [], host⟩

def acceptEach (setup : Setup σ) (m : InPlace σ) (templates : List Template) : InPlace σ :=
  templates.foldl (fun m t => (m.accept setup t.nodes).2) m

/-- It begins as the renderer does that hands its surroundings down. -/
theorem start_eq (setup : Setup σ) (data : Value) (root : Option String) (host : σ) :
    start data root host = ofRenderer (.fresh setup data root host) := by
  cases root <;> rfl

theorem acceptEach_ofRenderer (r : Renderer σ) (templates : List Template) :
    (ofRenderer r).acceptEach r.setup templates = ofRenderer (r.acceptEach templates) := by
  induction templates generalizing r with
  | nil => rfl
  | cons t rest ih =>
    have first := accept_ofRenderer r t.nodes
    have others := ih (r.accept t.nodes).2
    rw [r.setup_accept] at others
    change acceptEach r.setup ((ofRenderer r).accept r.setup t.nodes).2 rest = _
    rw [first]
    exact others

/-- What has been accepted by a new renderer, and what is accepted next, is the same where the
surroundings are handed down. -/
theorem accept_fresh (setup : Setup σ) (data : Value) (root : Option String) (host : σ)
    (earlier : List Template) (nodes : List Node) :
    let used := (Renderer.fresh setup data root host).acceptEach earlier
    ((start data root host).acceptEach setup earlier).accept setup nodes =
      ((used.accept nodes).1, ofRenderer (used.accept nodes).2) := by
  intro used
  have same : (Renderer.fresh setup data root host).setup = setup := by cases root <;> rfl
  have before := acceptEach_ofRenderer (Renderer.fresh setup data root host) earlier
  have next := accept_ofRenderer used nodes
  rw [same] at before
  rw [Renderer.setup_acceptEach, same] at next
  rw [start_eq setup, before]
  exact next

theorem surroundings_accept (setup : Setup σ) (m : InPlace σ) (nodes : List Node) :
    (m.accept setup nodes).2.env = m.env ∧ (m.accept setup nodes).2.depth = m.depth := by
  rw [accept_eq]
  split <;> exact ⟨rfl, rfl⟩

theorem surroundings_acceptEach (setup : Setup σ) (m : InPlace σ) (templates : List Template) :
    (m.acceptEach setup templates).env = m.env ∧
      (m.acceptEach setup templates).depth = m.depth := by
  induction templates generalizing m with
  | nil => exact ⟨rfl, rfl⟩
  | cons t rest ih =>
    obtain ⟨env, depth⟩ := ih (m.accept setup t.nodes).2
    obtain ⟨env', depth'⟩ := surroundings_accept setup m t.nodes
    exact ⟨env.trans env', depth.trans depth'⟩

/-- Node after node: a list is rendered as its first part and, if that succeeds, the second. -/
theorem accept_append (setup : Setup σ) (m : InPlace σ) (first second : List Node) :
    m.accept setup (first ++ second) =
      if (m.accept setup first).1.isOk then (m.accept setup first).2.accept setup second
      else m.accept setup first := by
  have split (room : Nat) : acceptAll setup room (first ++ second) =
      acceptAll setup room first >>= fun _ => acceptAll setup room second := by
    cases room <;> exact List.forM_append
  have same := (surroundings_accept setup m first).2
  unfold accept at same ⊢
  rw [split, Render.bind_apply]
  cases ran : acceptAll setup (setup.config.maxDepth - m.depth) first m with
  | error error after => rfl
  | ok a after =>
    rw [ran] at same
    change after.depth = m.depth at same
    change _ = accept setup after second
    unfold accept
    rw [same]

/-- Renderers end alike if the steps do that hand their surroundings down. -/
theorem accept_of_ends {rel : RenderState σ → RenderState σ → Prop} {setup : Setup σ}
    {m m' : InPlace σ} {nodes nodes' : List Node}
    (h : Render.Ends rel (fun _ => False)
      (Render.visitAll setup (setup.config.maxDepth - m.depth) m.env nodes m.unwritten)
      (Render.visitAll setup (setup.config.maxDepth - m'.depth) m'.env nodes' m'.unwritten)) :
    (m.accept setup nodes).1 = (m'.accept setup nodes').1 ∧
      ∃ s s', rel s s' ∧ (m.accept setup nodes).2 = m.resume s ∧
        (m'.accept setup nodes').2 = m'.resume s' := by
  obtain ⟨ends, related⟩ := h.alike
  rw [accept_eq_behind, accept_eq_behind]
  exact ⟨ends, _, _, related, rfl, rfl⟩

/-- From the same surroundings, with no indent in force, two renderers end alike and add the same
text, whatever they have written and whatever their lambdas have been asked. -/
theorem accept_alike {setup : Setup σ} (stateless : setup.host.Stateless) {m m' : InPlace σ}
    (env : m.env = m'.env) (depth : m.depth = m'.depth) (unindented : m.indent = "")
    (flag : setup.host.cancelled m.host = setup.host.cancelled m'.host) (nodes : List Node) :
    (m.accept setup nodes).1 = (m'.accept setup nodes).1 ∧
      ∃ added, (m.accept setup nodes).2.output = m.output ++ added ∧
        (m'.accept setup nodes).2.output = m'.output ++ added := by
  have levels : setup.config.Levels (fun _ => False) setup.config
      (setup.config.maxDepth - m.depth) (setup.config.maxDepth - m.depth) := .inl ⟨rfl, rfl⟩
  have steps := Render.leads_visitAll stateless.lockstep (setup.config.leads_refl _) rfl levels
    (m.env.leads_refl (fun _ => rfl) _) nodes
  have start : RenderState.SameWrites setup.host m.unwritten m'.unwritten := ⟨rfl, flag⟩
  obtain ⟨ends, same⟩ := (steps.ends start).alike
  have free := (Render.adds_visitAll setup (setup.config.maxDepth - m.depth) m.env nodes).lineFree
    unindented m.unwritten
  have added {s s' : RenderState σ} (free : Page.LineFree s.writes) (same : s.writes = s'.writes) :
      ∃ added, (m.resume s).output = m.output ++ added ∧
        (m'.resume s').output = m'.output ++ added := by
    refine ⟨(layout s.writes).text, free.text_after m.page, ?_⟩
    rw [same] at free ⊢
    exact free.text_after m'.page
  rw [accept_eq_behind, accept_eq_behind, ← env, ← depth]
  exact ⟨ends, added free same.writes⟩

section Steps
variable {setup : Setup σ} (stateless : setup.host.Stateless) (data : Value)
  (root : Option String) (host host' : σ)
include stateless

/-- In the surroundings of a new renderer, nodes add the text that they come to on a new one. -/
theorem accept_as_new {m : InPlace σ} (env : m.env = (start data root host).env)
    (depth : m.depth = 0) (flag : setup.host.cancelled m.host = setup.host.cancelled host)
    (nodes : List Node) :
    (m.accept setup nodes).1 = ((start data root host).accept setup nodes).1 ∧
      (m.accept setup nodes).2.output =
        m.output ++ ((start data root host).accept setup nodes).2.output := by
  have unindented : m.indent = "" := congrArg Env.indent env
  obtain ⟨result, added, output, output'⟩ := accept_alike stateless env depth unindented flag nodes
  have blank : (start data root host).output = "" := rfl
  rw [blank, String.empty_append] at output'
  rw [output']
  exact ⟨result, output⟩

/-- Templates that a renderer accepts one after the other do not affect each other: each comes to the
result that it has on a new renderer with the same data and the same root name, under the flag as it
stands, and adds the text that it has there, whether or not those before it have failed. So a list of
nodes in two parts comes to the texts of both, or fails where one of them fails. A renderer that
hands its surroundings down ends each step alike. -/
theorem accept_independent :
    (∀ (earlier : List Template) (t : Template),
      let used := (start data root host).acceptEach setup earlier
      let fresh := start data root host'
      setup.host.cancelled used.host = setup.host.cancelled host' →
        (used.accept setup t.nodes).1 = (fresh.accept setup t.nodes).1 ∧
          (used.accept setup t.nodes).2.output =
            used.output ++ (fresh.accept setup t.nodes).2.output) ∧
    (∀ first second : List Node,
      let one := (start data root host).accept setup first
      let other := (start data root host').accept setup second
      let both := (start data root host).accept setup (first ++ second)
      (one.1 = .ok () → setup.host.cancelled one.2.host = setup.host.cancelled host' →
        both.1 = other.1 ∧ both.2.output = one.2.output ++ other.2.output) ∧
        ∀ error, one.1 = .error error → both = one) ∧
    ∀ (earlier : List Template) (t : Template),
      let used := (Renderer.fresh setup data root host).acceptEach earlier
      ((start data root host).acceptEach setup earlier).accept setup t.nodes =
        ((used.accept t.nodes).1, ofRenderer (used.accept t.nodes).2) := by
  refine ⟨fun earlier t flag => ?_, fun first second => ?_,
    fun earlier t => accept_fresh setup data root host earlier t.nodes⟩
  · obtain ⟨env, depth⟩ := surroundings_acceptEach setup (start data root host) earlier
    exact accept_as_new stateless data root host' env depth flag t.nodes
  · intro one other both
    obtain ⟨env, depth⟩ := surroundings_accept setup (start data root host) first
    have split := accept_append setup (start data root host) first second
    refine ⟨fun ok flag => ?_, fun error failed => ?_⟩
    · have ran : one.1.isOk = true := by rw [ok]; rfl
      rw [show both = one.2.accept setup second from split.trans (if_pos ran)]
      exact accept_as_new stateless data root host' env depth flag second
    · have stopped : one.1.isOk = false := by rw [failed]; rfl
      exact split.trans (if_neg (ne_true_of_eq_false stopped))

end Steps

/-- A page that writes an indented line, fills the header of a layout, and then fails because a
partial of the layout is missing. -/
def broken : Template :=
  .ofNodes [.inclusion ⟨"note", "  ", some (.ofNodes [.text "a\n"])⟩,
    .parent ⟨"layout", "", some (.ofNodes [.block ⟨"header", []⟩, .inclusion (.named "missing")])⟩
      [⟨"header", [.text "x"]⟩]]

/-- A header of its own, with a name that a lambda sets in bold. -/
def header : Template := .ofNodes [.block ⟨"header", [.text "Hi ", .interpolation "bold" false]⟩]

/-- The flag that scripts raise is up from there on, whatever was asked before. -/
theorem flag_scriptedHost (scripts : List Script) (attached : Bool) {s s' : ScriptedState}
    (same : (scriptedHost scripts attached).cancelled s = (scriptedHost scripts attached).cancelled s')
    (l : Lambda) (argument : String) :
    (scriptedHost scripts attached).cancelled (runScript scripts l argument s).2 =
      (scriptedHost scripts attached).cancelled (runScript scripts l argument s').2 := by
  cases attached with
  | false => rfl
  | true =>
    simp only [scriptedHost, Bool.true_and] at same ⊢
    unfold runScript
    cases scripts[l.id]? with
    | none => exact same
    | some script => simp only [same]

/-- Neither the override of the broken page nor the line it has left open shows in the header. -/
theorem accept_header_behind_broken :
    let setup : Setup ScriptedState :=
      ⟨.standard, .empty, scriptedHost [⟨"bold", .constant "<b>\x7b\x7bname\x7d\x7d</b>"⟩] true⟩
    let data := Value.map [("bold", .lambda ⟨0⟩), ("name", .str "Ada")]
    let fresh := start data (some "page") .start
    let used := fresh.acceptEach setup [broken]
    setup.host.Stateless ∧ setup.host.cancelled used.host = setup.host.cancelled fresh.host ∧
      (fresh.accept setup broken.nodes).1 = .error (.partialNotFound "missing") ∧
      used.output = "  a\nx" ∧
      (used.accept setup header.nodes).1 = .ok () ∧
      (used.accept setup header.nodes).2.output = "  a\nxHi <b>Ada</b>" := by
  intro setup data fresh used
  have stateless : setup.host.Stateless := by
    refine ⟨fun l argument s s' => ?_, flag_scriptedHost _ true⟩
    change (runScript _ l argument s).1 = (runScript _ l argument s').1
    unfold runScript
    rcases l with ⟨_ | n⟩ <;> rfl
  have flag : setup.host.cancelled used.host = setup.host.cancelled fresh.host := by
    decide +kernel
  have failed : (fresh.accept setup broken.nodes).1 = .error (.partialNotFound "missing") := by
    decide +kernel
  have before : used.output = "  a\nx" := by decide +kernel
  have ok : (fresh.accept setup header.nodes).1 = .ok () := by decide +kernel
  have output : (fresh.accept setup header.nodes).2.output = "Hi <b>Ada</b>" := by decide +kernel
  obtain ⟨result, text⟩ :=
    (accept_independent stateless data (some "page") .start .start).1 [broken] header flag
  refine ⟨stateless, flag, failed, before, result.trans ok, ?_⟩
  rw [show (used.accept setup header.nodes).2.output = _ from text]
  change used.output ++ (fresh.accept setup header.nodes).2.output = _
  rw [before, output]
  rfl

end InPlace

end Mustache
