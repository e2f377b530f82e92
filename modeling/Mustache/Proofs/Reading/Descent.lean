import Mustache.Proofs.Reading.Assembly

/-! Reading by recursive descent. A level of nodes is read up to the tag that closes it, and an
opening tag has the level inside of it read by a call of its own, which goes on wherever that call
has come to and with the delimiters then in force. It comes to the same as the flat reading. -/
namespace Mustache

/-- A level of nodes that has been read: where its body ends, and the cursor behind it, with no more
than `bound` characters left. -/
structure Level (bound : Nat) where
  nodes : List Node
  bodyStop : Nat
  after : Cursor
  within : after.rest.length ≤ bound

namespace Level
variable {bound wider : Nat}

def widen (le : bound ≤ wider) (l : Level bound) : Level wider :=
  { l with within := Nat.le_trans l.within le }

/-- The nodes of the outermost level, behind which nothing may be left. -/
def complete (l : Level bound) : Except ParseError (List Node) :=
  if l.after.rest.isEmpty then .ok l.nodes
  else .error (.at l.after.place (.message
    ("Parser did not consume entire input. Remaining: '" ++ String.ofList l.after.rest ++ "'")))

end Level

/-- Reads nodes up to the tag that closes `opened`, or to the end of the source if nothing is open.
Those of the level that have been read already are given, newest first. -/
def Cursor.readLevel (source : String) (c : Cursor) (opened : Option String) (nodes : List Node) :
    Except ParseError (Level c.rest.length) :=
  match h : c.step with
  | .error (.failed error) => .error error
  | .error (.finished text place d) =>
    match opened with
    | some name => .error (.at place (.endBefore (d.opening ++ "/" ++ name ++ d.closing)))
    | none =>
      .ok ⟨(Node.pushText text nodes).reverse, place.offset, c.skip c.rest.length, by simp⟩
  | .ok (segment, next) =>
    have shorter : next.rest.length < c.rest.length := length_rest_of_step h
    let tag := segment.tag
    let nodes := Node.trimIndent tag.indent (Node.pushText segment.lead nodes)
    let goOn (nodes : List Node) : Except ParseError (Level c.rest.length) :=
      (next.readLevel source opened nodes).map (.widen (Nat.le_of_lt shorter))
    match tag.directive with
    | .interpolation name escaped => goOn (.interpolation name escaped :: nodes)
    | .inclusion name => goOn (.inclusion ⟨name, tag.indent, none⟩ :: nodes)
    | .comment | .delimiters _ => goOn nodes
    | .opening opener name =>
      match next.readLevel source (some name) [] with
      | .error error => .error error
      | .ok inner =>
        have shorter' : inner.after.rest.length < c.rest.length :=
          Nat.lt_of_le_of_lt inner.within shorter
        let frame : Frame := ⟨opener, name, tag.stop.offset, tag.delimiters, nodes⟩
        let node := frame.close source inner.bodyStop inner.nodes
        (inner.after.readLevel source opened (node :: nodes)).map (.widen (Nat.le_of_lt shorter'))
    | .closing name =>
      match opened with
      | none => .error (.at tag.start (.strayClosing name))
      | some innermost =>
        if innermost = name then .ok ⟨nodes.reverse, tag.bodyStop, next, Nat.le_of_lt shorter⟩
        else .error (.at tag.start (.mismatchedClosing innermost name))
termination_by c.rest.length

/-- Reads a source by descent. -/
def parseByDescent (source : String) (d : ValidDelimiters) : Except ParseError (List Node) :=
  (Cursor.ofSource source d).readLevel source none [] >>= Level.complete

namespace Level
variable {bound wider : Nat}

/-- Goes on with the flat reading behind a level, which closes the innermost of these tags. -/
def resume (source : String) (frames : List Frame) (l : Level bound) :
    Except ParseError (List Node) :=
  match frames with
  | [] => l.complete
  | f :: outer => l.after.read source ⟨outer, f.close source l.bodyStop l.nodes :: f.before⟩

theorem map_widen_resume (source : String) (frames : List Frame) (le : bound ≤ wider)
    (read : Except ParseError (Level bound)) :
    (read.map (widen le) >>= resume source frames) = (read >>= resume source frames) := by
  cases read <;> cases frames <;> rfl

end Level

namespace Cursor

/-- Induction on what is left to read. -/
theorem induction_shorter {p : Cursor → Prop}
    (step : ∀ c : Cursor, (∀ c' : Cursor, c'.rest.length < c.rest.length → p c') → p c)
    (c : Cursor) : p c :=
  (measure fun c : Cursor => c.rest.length).wf.induction c step

/-- The flat reading, in the middle of a level, does what the descent does up to the end of the
level, and then goes on behind it. -/
theorem read_eq_readLevel (source : String) (c : Cursor) (frames : List Frame)
    (nodes : List Node) :
    c.read source ⟨frames, nodes⟩ =
      c.readLevel source (frames.head?.map Frame.name) nodes >>= Level.resume source frames := by
  induction c using induction_shorter generalizing frames nodes with
  | step c ih =>
  rw [readLevel]
  split
  · rename_i h
    rw [read_of_error h]
    rfl
  · rename_i text place d h
    rw [read_of_error h]
    cases frames with
    | nil =>
      show _ = Level.complete _
      unfold Level.complete
      simp [Assembly.finish]
    | cons f outer => rfl
  · rename_i segment next h
    rw [read_of_ok h]
    have shorter := length_rest_of_step h
    unfold Assembly.add Assembly.addTag
    dsimp only
    cases segment.tag.directive with
    | interpolation | inclusion | comment | delimiters =>
      simp only [Level.map_widen_resume, ← ih next shorter]
      rfl
    | opening opener name =>
      -- the reading behind the tag closes the level inside first, and then the one the tag is on
      change next.read source ⟨_ :: frames, []⟩ = _
      rw [ih next shorter]
      simp only [List.head?_cons, Option.map_some]
      cases next.readLevel source (some name) [] with
      | error error => rfl
      | ok inner =>
        have shorter' := Nat.lt_of_le_of_lt inner.within shorter
        simp only [Level.map_widen_resume, ← ih inner.after shorter']
        rfl
    | closing name =>
      cases frames with
      | nil => rfl
      | cons f outer =>
        simp only [List.head?_cons, Option.map_some]
        split <;> rfl

end Cursor

/-- Reading by descent and flat reading come to the same nodes and the same errors. -/
theorem parseByDescent_eq (source : String) (d : ValidDelimiters) :
    parseByDescent source d = parseNodes source d :=
  (Cursor.read_eq_readLevel source _ [] []).symm

end Mustache
