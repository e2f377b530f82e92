import Mustache.Proofs.Reading.Descent
import Mustache.Proofs.Reading.Turns

/-! The reader that changes its own state returns, with what the reading by descent comes to. -/
namespace Mustache

namespace Cursor
variable {c next : Cursor} (source : String)

/-- A level that is read by descent: its nodes, where its body ends, and the cursor behind it. -/
def level (c : Cursor) (opened : Option String) (nodes : List Node) :
    Except ParseError ((List Node × Nat) × Cursor) :=
  (c.readLevel source opened nodes).map fun l => ((l.nodes, l.bodyStop), l.after)

variable (opened : Option String) (nodes : List Node)

theorem level_finished {text : String} {place : Position} {last : Delimiters}
    (read : c.step = .error (.finished text place last)) :
    c.level source opened nodes = match opened with
      | none =>
        .ok (((Node.pushText text nodes).reverse, place.offset), c.skip c.rest.length)
      | some name =>
        .error (.at place (.endBefore (last.opening ++ "/" ++ name ++ last.closing))) := by
  unfold level
  rw [readLevel]
  split
  · simp_all
  · obtain ⟨rfl, rfl, rfl⟩ :=
      Ending.finished.inj (Except.error.inj (read.symm.trans ‹c.step = _›))
    cases opened <;> rfl
  · simp_all

theorem level_failed {error : ParseError} (read : c.step = .error (.failed error)) :
    c.level source opened nodes = .error error := by
  unfold level
  rw [readLevel]
  split
  · obtain rfl := Ending.failed.inj (Except.error.inj (read.symm.trans ‹c.step = _›))
    rfl
  · simp_all
  · simp_all

theorem map_widen {bound wider : Nat} (le : bound ≤ wider)
    (read : Except ParseError (Level bound)) :
    ((read.map (Level.widen le)).map fun l => ((l.nodes, l.bodyStop), l.after)) =
      read.map fun l => ((l.nodes, l.bodyStop), l.after) := by
  cases read <;> rfl

/-- What is read behind a tag is what acting on the tag asks for. -/
theorem level_read {segment : Segment} (read : c.step = .ok (segment, next)) :
    c.level source opened nodes =
      match Reader.Turn.ofTag opened
        (Node.trimIndent segment.tag.indent (Node.pushText segment.lead nodes)) segment.tag with
      | .error error => .error error
      | .ok (.done nodes bodyStop) => .ok ((nodes, bodyStop), next)
      | .ok (.goOn nodes) => next.level source opened nodes
      | .ok (.inside frame) =>
        match next.level source (some frame.name) [] with
        | .error error => .error error
        | .ok ((children, bodyStop), after) =>
          after.level source opened (frame.close source bodyStop children :: frame.before) := by
  unfold level
  rw [readLevel]
  split
  · simp_all
  · simp_all
  · rename_i segment' next' read'
    obtain ⟨rfl, rfl⟩ := Prod.mk.inj (Except.ok.inj (read.symm.trans read'))
    unfold Reader.Turn.ofTag
    dsimp only
    cases segment.tag.directive with
    | interpolation | inclusion | comment | delimiters => exact map_widen _ _
    | opening opener name =>
      dsimp only
      cases next.readLevel source (some name) [] with
      | error error => rfl
      | ok inner => exact map_widen _ _
    | closing name =>
      cases opened with
      | none => rfl
      | some innermost =>
        dsimp only
        split <;> rfl

end Cursor

namespace Reader
variable {source : String} {d : ValidDelimiters} {before text : List Char} {c c' next : Cursor}
  {opened : Option String} {nodes : List Node} {log : List Iteration}

/-- An iteration over a source of this many bytes goes forward, and not behind the end. Only where
nothing is left it stays, and is then the last one of its level. Parsing accepts the delimiters that
are in force before it and after it. -/
structure Iteration.Forward (size : Nat) (i : Iteration) : Prop where
  within : i.last.pos ≤ size
  forward : i.first.pos < size → i.first.pos < i.last.pos
  returns : size ≤ i.first.pos → i.returns = true
  first : i.first.delimiters.Valid
  last : i.last.delimiters.Valid

theorem forward_of_passes (h : (Cursor.ofSource source d).Passes before c)
    (passed : c.Passes text c') (moved : c.rest ≠ [] → text ≠ []) {returns : Bool}
    (ends : c.rest = [] → returns = true) :
    Iteration.Forward (Text.byteLength source.toList) ⟨ofCursor c, ofCursor c', returns⟩ := by
  have size : Text.byteLength source.toList = Text.byteLength before + Text.byteLength c.rest := by
    rw [h.whole, Text.byteLength_append]
  have first : (ofCursor c).pos = Text.byteLength before := h.offset
  have last : (ofCursor c').pos = Text.byteLength before + Text.byteLength text := by
    rw [← Text.byteLength_append]
    exact (h.trans passed).offset
  have part : Text.byteLength c.rest = Text.byteLength text + Text.byteLength c'.rest := by
    rw [passed.rest, Text.byteLength_append]
  refine ⟨?_, ?_, ?_, c.delimiters.property, c'.delimiters.property⟩
  · dsimp only
    omega
  · dsimp only
    intro left
    have more := Text.length_le_byteLength text
    have some := List.length_pos_iff.2 (moved fun none => by
      rw [size, none, first, Text.byteLength_nil] at left
      exact Nat.lt_irrefl _ left)
    omega
  · dsimp only
    intro beyond
    refine ends (List.eq_nil_of_length_eq_zero ?_)
    have bytes := Text.length_le_byteLength c.rest
    omega

theorem forward_cons (h : (Cursor.ofSource source d).Passes before c) (passed : c.Passes text c')
    (moved : c.rest ≠ [] → text ≠ []) {returns : Bool} (ends : c.rest = [] → returns = true)
    (good : ∀ i ∈ log, i.Forward (Text.byteLength source.toList)) :
    ∀ i ∈ ⟨ofCursor c, ofCursor c', returns⟩ :: log,
      i.Forward (Text.byteLength source.toList) :=
  List.forall_mem_cons.2 ⟨forward_of_passes h passed moved ends, good⟩

/-- A call that begins at a cursor returns, with the level that is read there, and where the cursor
then is, which is further on. Its newest iteration has come to there, and all go forward. -/
def Answers (source : String) (c : Cursor) (opened : Option String) (nodes : List Node)
    (log : List Iteration) : Prop :=
  ∃ text c' log', Returns (round source) (opened, nodes) (ofCursor c, log)
      (ended ((c.level source opened nodes).map Prod.fst) (ofCursor c', log')) ∧
    c.Passes text c' ∧ log'.head?.map Iteration.last = some (ofCursor c') ∧
    (∀ i ∈ log', i.Forward (Text.byteLength source.toList)) ∧
    ∀ level after, c.level source opened nodes = .ok (level, after) →
      after = c' ∧ (opened = none → c'.rest = [])

namespace Answers

theorem of_error {error : ParseError} {log' : List Iteration}
    (returned : Returns (round source) (opened, nodes) (ofCursor c, log)
      (.error error (ofCursor c', ⟨ofCursor c, ofCursor c', true⟩ :: log')))
    (read : c.level source opened nodes = .error error) (passed : c.Passes text c')
    (good : ∀ i ∈ ⟨ofCursor c, ofCursor c', true⟩ :: log',
      i.Forward (Text.byteLength source.toList)) :
    Answers source c opened nodes log := by
  refine ⟨text, c', _, ?_, passed, rfl, good, fun l after ok => ?_⟩
  · rw [read]
    exact returned
  · rw [read] at ok
    cases ok

/-- An iteration that fails by itself. -/
theorem failed {error : ParseError} (turned : turn source.toList opened nodes (ofCursor c) =
      ended (.error error) (ofCursor c'))
    (read : c.level source opened nodes = .error error) (passed : c.Passes text c')
    (good : ∀ i ∈ ⟨ofCursor c, ofCursor c', true⟩ :: log,
      i.Forward (Text.byteLength source.toList)) :
    Answers source c opened nodes log := by
  refine of_error (.of_calls [] (List.forall_mem_nil _) fun f _ => ?_) read passed good
  unfold round
  dsimp only
  rw [turned]
  rfl

/-- An iteration that comes to the end of its level. -/
theorem done {nodes' : List Node} {bodyStop : Nat}
    (turned : turn source.toList opened nodes (ofCursor c) =
      ended (.ok (.done nodes' bodyStop)) (ofCursor c'))
    (read : c.level source opened nodes = .ok ((nodes', bodyStop), c')) (passed : c.Passes text c')
    (good : ∀ i ∈ ⟨ofCursor c, ofCursor c', true⟩ :: log,
      i.Forward (Text.byteLength source.toList))
    (whole : opened = none → c'.rest = []) : Answers source c opened nodes log := by
  refine ⟨text, c', _, .of_calls [] (List.forall_mem_nil _) fun f _ => ?_, passed, rfl, good,
    fun l after ok => ?_⟩
  · rw [read]
    unfold round
    dsimp only
    rw [turned]
    rfl
  · rw [read] at ok
    exact ⟨(Prod.mk.inj (Except.ok.inj ok)).2.symm, whole⟩

/-- Where the iterations behind a cursor read the rest of its level, they answer for it. -/
theorem further {nodes' : List Node} {log' : List Iteration}
    (later : Answers source next opened nodes' log') (passed : c.Passes text next)
    (same : c.level source opened nodes = next.level source opened nodes')
    (returned : ∀ r, Returns (round source) (opened, nodes') (ofCursor next, log') r →
      Returns (round source) (opened, nodes) (ofCursor c, log) r) :
    Answers source c opened nodes log := by
  obtain ⟨text', c', log'', ran, passed', newest, good, whole⟩ := later
  rw [← same] at ran whole
  exact ⟨_, c', log'', returned _ ran, passed.trans passed', newest, good, whole⟩

theorem goOn {nodes' : List Node} (turned : turn source.toList opened nodes (ofCursor c) =
      ended (.ok (.goOn nodes')) (ofCursor next))
    (same : c.level source opened nodes = next.level source opened nodes')
    (passed : c.Passes text next)
    (later : Answers source next opened nodes' (⟨ofCursor c, ofCursor next, false⟩ :: log)) :
    Answers source c opened nodes log := by
  refine later.further passed same fun r ran => ?_
  refine .of_calls [(_, _, r)] (List.forall_mem_singleton.2 ran) fun f agrees => ?_
  unfold round
  dsimp only
  rw [turned]
  exact agrees _ List.mem_cons_self

section Inside
variable {frame : Frame} {log' : List Iteration}
  (turned : turn source.toList opened nodes (ofCursor c) =
    ended (.ok (.inside frame)) (ofCursor next))
include turned

/-- A level inside of a tag that cannot be read. -/
theorem insideFailed {error : ParseError} (inner : Returns (round source) (some frame.name, [])
      (ofCursor next, log) (.error error (ofCursor c', log')))
    (read : c.level source opened nodes = .error error) (passed : c.Passes text c')
    (good : ∀ i ∈ ⟨ofCursor c, ofCursor c', true⟩ :: log',
      i.Forward (Text.byteLength source.toList)) :
    Answers source c opened nodes log := by
  refine of_error ?_ read passed good
  refine .of_calls [(_, _, _)] (List.forall_mem_singleton.2 inner) fun f agrees => ?_
  have nested : f _ _ = _ := agrees _ List.mem_cons_self
  unfold round
  dsimp only
  rw [turned]
  simp only [ended, nested]

/-- A level inside of a tag, and what is behind it on the level of the tag. -/
theorem inside {children : List Node} {bodyStop : Nat}
    (inner : Returns (round source) (some frame.name, []) (ofCursor next, log)
      (.ok (children, bodyStop) (ofCursor c', log')))
    (same : c.level source opened nodes =
      c'.level source opened (frame.close source bodyStop children :: frame.before))
    (passed : c.Passes text c')
    (later : Answers source c' opened (frame.close source bodyStop children :: frame.before)
      (⟨ofCursor c, ofCursor c', false⟩ :: log')) : Answers source c opened nodes log := by
  refine later.further passed same fun r ran => ?_
  refine .of_calls [(_, _, _), (_, _, r)]
    (List.forall_mem_cons.2 ⟨inner, List.forall_mem_singleton.2 ran⟩) fun f agrees => ?_
  have nested : f _ _ = _ := agrees _ List.mem_cons_self
  unfold round
  dsimp only
  rw [turned]
  simp only [ended, nested]
  exact agrees _ (List.mem_cons_of_mem _ List.mem_cons_self)

end Inside

end Answers

/-- By induction on what is left to read: a level inside of a tag begins behind the tag, and what is
behind that level comes after it. -/
theorem answers (h : (Cursor.ofSource source d).Passes before c) (opened : Option String)
    (nodes : List Node) (good : ∀ i ∈ log, i.Forward (Text.byteLength source.toList)) :
    Answers source c opened nodes log := by
  induction c using Cursor.induction_shorter generalizing before opened nodes log with
  | step c ih =>
  cases read : c.step with
  | error ending =>
    cases ending with
    | finished text place last =>
      have passed := c.passes_skip c.rest.length
      rw [List.take_length] at passed
      have level := Cursor.level_finished source opened nodes read
      have turned := turn_finished h opened nodes read
      have good := forward_cons h passed id (fun _ => rfl) good
      cases opened with
      | none => exact .done turned level passed good fun _ => List.drop_length
      | some name => exact .failed turned level passed good
    | failed error =>
      obtain ⟨k, moved, turned⟩ := turn_failed h opened nodes read
      have passed := c.passes_skip k
      exact .failed turned (Cursor.level_failed source opened nodes read) passed
        (forward_cons h passed (fun _ => moved) (fun _ => rfl) good)
  | ok p =>
    obtain ⟨segment, next⟩ := p
    have shorter := Cursor.length_rest_of_step read
    obtain ⟨more, some, passed⟩ := Cursor.passes_step read
    obtain ⟨text, ht⟩ : ∃ text, segment.lead.toList ++ more = text := ⟨_, rfl⟩
    rw [ht] at passed
    have left : c.rest ≠ [] := fun none => by simp [none] at shorter
    have moved : text ≠ [] := by simp [← ht, some]
    have turned := turn_read h opened nodes read
    have level := Cursor.level_read source opened nodes read
    cases tag : Turn.ofTag opened (Node.trimIndent segment.tag.indent
        (Node.pushText segment.lead nodes)) segment.tag with
    | error error =>
      rw [tag] at turned level
      exact .failed turned level passed
        (forward_cons h passed (fun _ => moved) (fun _ => rfl) good)
    | ok t =>
      rw [tag] at turned level
      cases t with
      | done nodes' bodyStop =>
        exact .done turned level passed
          (forward_cons h passed (fun _ => moved) (fun _ => rfl) good)
          fun none => absurd none (Turn.opened_of_done tag)
      | goOn nodes' =>
        refine .goOn turned level passed (ih next shorter (h.trans passed) opened nodes' ?_)
        exact forward_cons h passed (fun _ => moved) (fun none => absurd none left) good
      | inside frame =>
        obtain ⟨text', c', log', inner, further, -, good', whole⟩ :=
          ih next shorter (h.trans passed) (.some frame.name) [] good
        have passed' := passed.trans further
        have moved' : text ++ text' ≠ [] := List.append_ne_nil_of_left_ne_nil moved text'
        dsimp only at level
        cases nested : next.level source (.some frame.name) [] with
        | error error =>
          rw [nested] at inner level
          exact .insideFailed turned inner level passed'
            (forward_cons h passed' (fun _ => moved') (fun _ => rfl) good')
        | ok l =>
          obtain ⟨⟨children, bodyStop⟩, after⟩ := l
          obtain ⟨rfl, -⟩ := whole _ _ nested
          rw [nested] at inner level
          have shorter' : after.rest.length < c.rest.length := by
            have lengths := congrArg List.length further.rest
            rw [List.length_append] at lengths
            omega
          refine .inside turned inner level passed'
            (ih after shorter' (h.trans passed') opened _ ?_)
          exact forward_cons h passed' (fun _ => moved') (fun none => absurd none left) good'

/-- At the end of the outermost level nothing is left to complain of. -/
theorem parseNodes_of_level
    (finished : ∀ level after, (Cursor.ofSource source d).level source none [] = .ok (level, after) →
      after.rest = []) :
    parseNodes source d = ((Cursor.ofSource source d).level source none []).map (·.1.1) := by
  rw [← parseByDescent_eq]
  unfold parseByDescent
  unfold Cursor.level at finished ⊢
  cases read : (Cursor.ofSource source d).readLevel source none [] with
  | error error => rfl
  | ok l =>
    rw [read] at finished
    have complete : l.complete = .ok l.nodes := by
      unfold Level.complete
      rw [finished _ _ rfl]
      rfl
    exact complete

/-- The nodes of the outermost level are what parsing comes to. -/
theorem map_level (source : String) {d : Delimiters} (accepted : d.Valid) :
    (((Cursor.ofSource source ⟨d, accepted⟩).level source none []).map Prod.fst).map Prod.fst =
      (Template.parseWith d source).map Template.nodes := by
  obtain ⟨_, _, _, -, -, -, -, whole⟩ :=
    answers (.refl (.ofSource source ⟨d, accepted⟩)) none [] (List.forall_mem_nil _)
  have parsed := parseNodes_of_level fun level after read =>
    (whole level after read).1 ▸ (whole level after read).2 rfl
  unfold Template.parseWith
  rw [dif_pos accepted, parsed]
  cases Cursor.level source _ none [] <;> rfl

/-- Reading a source from delimiters that parsing accepts returns, however often it changes them,
and comes to what parsing comes to. Its newest iteration has come to where the reader is. Every
iteration goes forward, not behind the end, and between delimiters that parsing accepts. The nodes of
the outermost level are returned only at the end of the source. -/
theorem round_returns (source : String) {d : Delimiters} (accepted : d.Valid) :
    ∃ result m log,
      Returns (round source) (none, []) (start d, []) (ended result (m, log)) ∧
      result.map Prod.fst = (Template.parseWith d source).map Template.nodes ∧
      log.head?.map Iteration.last = some m ∧
      (∀ i ∈ log, i.Forward (Text.byteLength source.toList)) ∧
      ∀ level, result = .ok level → m.pos = Text.byteLength source.toList := by
  have begun : (Cursor.ofSource source ⟨d, accepted⟩).Passes [] (.ofSource source ⟨d, accepted⟩) :=
    .refl _
  obtain ⟨text, c', log, returned, passed, newest, good, whole⟩ :=
    answers begun none [] (List.forall_mem_nil _)
  refine ⟨_, _, log, returned, map_level source accepted, newest, good, fun level ok => ?_⟩
  cases read : Cursor.level source (.ofSource source ⟨d, accepted⟩) none [] with
  | error error =>
    rw [read] at ok
    cases ok
  | ok l =>
    have place : (ofCursor c').pos = Text.byteLength text := (begun.trans passed).offset
    rw [place, (begun.trans passed).whole, (whole l.1 l.2 read).2 rfl, List.append_nil]
    rfl

/-- A section whose tags have different delimiters, in the middle of a line. -/
def ledger : String := "a\x7b\x7b#b\x7d\x7d\x7b\x7b=| |=\x7d\x7d|c||/b|"

theorem round_returns_ledger : Delimiters.standard.Valid ∧
    ∃ result m log, Returns (round ledger) (none, []) (start .standard, [])
        (ended result (m, log)) ∧
      result.map Prod.fst = .ok [.text "a",
        .sect ⟨"b", false, ⟨ledger, 7, 19, .standard⟩, [.interpolation "c" true]⟩] ∧
      m.pos = 23 ∧ ∀ i ∈ log, i.last.pos ≤ 23 := by
  obtain ⟨result, m, log, returned, parsed, -, forward, whole⟩ :=
    round_returns ledger Delimiters.standard_valid
  have read : Template.parseWith .standard ledger = .ok ⟨none, ledger, [.text "a",
      .sect ⟨"b", false, ⟨ledger, 7, 19, .standard⟩, [.interpolation "c" true]⟩]⟩ := by
    decide +kernel
  have size : Text.byteLength ledger.toList = 23 := by decide +kernel
  rw [read] at parsed
  rw [size] at forward whole
  refine ⟨Delimiters.standard_valid, result, m, log, returned, parsed, ?_,
    fun i mem => (forward i mem).within⟩
  cases result with
  | error error => cases parsed
  | ok level => exact whole level rfl

end Reader

end Mustache
