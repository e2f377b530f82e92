import Mathlib.Data.List.Pairwise
import Mathlib.Logic.Relation
import Mustache.Proofs.Reading.Assembly

/-! Reading as a run, tag after tag: what a run passes, what it keeps, and how it goes on when more
lines follow. -/
namespace Mustache
open Relation (ReflTransGen)

/-- One tag further: the cursor behind it and the tree it makes. -/
def Reads (source : String) (p q : Cursor × Assembly) : Prop :=
  ∃ segment, p.1.step = .ok (segment, q.1) ∧ p.2.add source segment = .ok q.2

/-- Any number of tags further. -/
abbrev Reaches (source : String) := ReflTransGen (Reads source)

/-- One cursor stands behind another, with this text between them. -/
structure Cursor.Passes (c : Cursor) (text : List Char) (c' : Cursor) : Prop where
  rest : c.rest = text ++ c'.rest
  place : c'.place = c.place.advance text
  margin : c'.margin = text.foldl Cursor.widen c.margin

namespace Cursor
variable {c c' c'' next : Cursor} {segment : Segment} {text more : List Char}

theorem Passes.refl (c : Cursor) : c.Passes [] c := ⟨rfl, rfl, rfl⟩

theorem Passes.trans (h : c.Passes text c') (h' : c'.Passes more c'') :
    c.Passes (text ++ more) c'' where
  rest := by rw [h.rest, h'.rest, List.append_assoc]
  place := by rw [h'.place, h.place, Position.advance_append]
  margin := by rw [h'.margin, h.margin, List.foldl_append]

theorem passes_skip (c : Cursor) (n : Nat) : c.Passes (c.rest.take n) (c.skip n) :=
  ⟨(List.take_append_drop n c.rest).symm, rfl, rfl⟩

section Source
variable {source : String} {d : ValidDelimiters} {before : List Char}

theorem Passes.whole (passed : (ofSource source d).Passes before c) :
    source.toList = before ++ c.rest := passed.rest

theorem Passes.offset (passed : (ofSource source d).Passes before c) :
    c.place.offset = Text.byteLength before := by
  rw [passed.place, Position.offset_advance]
  exact Nat.zero_add _

/-- What lies between two cursors is a part of the source. -/
theorem Passes.lies (passed : (ofSource source d).Passes before c) (through : c.Passes text c')
    (delimiters : Delimiters) :
    (Body.mk source c.place.offset c'.place.offset delimiters).Lies before text c'.rest where
  source := by rw [passed.whole, through.rest, List.append_assoc]
  start := passed.offset
  stop := by rw [through.place, Position.offset_advance, passed.offset]

end Source

theorem Passes.endsLine (h : c.Passes text c') (line : c.EndsLine) : c'.EndsLine := by
  unfold EndsLine at line ⊢
  rw [h.margin, ← List.foldl_append, ← h.rest]
  exact line

theorem passes_step (h : c.step = .ok (segment, next)) :
    ∃ more, more ≠ [] ∧ c.Passes (segment.lead.toList ++ more) next := by
  obtain ⟨n, k, -, lt, le, lead, -, rfl⟩ := skip_step h
  have split : c.rest.take k = c.rest.take n ++ (c.rest.drop n).take (k - n) := by
    rw [← List.take_add, Nat.add_sub_cancel' (Nat.le_of_lt lt)]
  refine ⟨(c.rest.drop n).take (k - n), ?_, ?_⟩
  · rw [← List.length_pos_iff, List.length_take, List.length_drop]
    omega
  · rw [lead, ← split]
    exact ⟨(List.take_append_drop k c.rest).symm, rfl, rfl⟩

theorem endsLine_step (line : c.EndsLine) (h : c.step = .ok (segment, next)) : next.EndsLine := by
  obtain ⟨more, -, passed⟩ := passes_step h
  exact passed.endsLine line

/-- A step that leaves the lines behind unread does not depend on them. -/
theorem step_of_extend {tail : List Char} (line : c.EndsLine)
    (h : (c.extend tail).step = .ok (segment, next)) (unread : tail.length ≤ next.rest.length) :
    ∃ c', next = c'.extend tail ∧ c.step = .ok (segment, c') := by
  obtain ⟨more, -, passed⟩ := passes_step h
  obtain ⟨inside, hi⟩ : ∃ inside, segment.lead.toList ++ more = inside := ⟨_, rfl⟩
  have split := passed.rest
  rw [hi, rest_extend] at split
  have lengths := congrArg List.length split
  rw [List.length_append, List.length_append] at lengths
  have rest : next.rest = c.rest.drop inside.length ++ tail := by
    rw [← List.drop_append_of_le_length (by omega), split, List.drop_left]
  have cut : next = extend tail { next with rest := c.rest.drop inside.length } := by
    unfold extend
    rw [← rest]
  rw [cut, step_extend line] at h
  exact ⟨_, cut, h⟩

end Cursor

variable {source : String} {p q : Cursor × Assembly} {c c' : Cursor} {a a' : Assembly}

theorem passes_of_reaches (h : Reaches source p q) : ∃ text, p.1.Passes text q.1 := by
  induction h with
  | refl => exact ⟨[], .refl _⟩
  | tail _ step ih =>
    obtain ⟨text, passed⟩ := ih
    obtain ⟨segment, read, -⟩ := step
    obtain ⟨more, -, further⟩ := Cursor.passes_step read
    exact ⟨_, passed.trans further⟩

theorem fresh_of_reaches (fresh : p.1.Fresh) (h : Reaches source p q) : q.1.Fresh := by
  induction h with
  | refl => exact fresh
  | tail _ step _ =>
    obtain ⟨segment, read, -⟩ := step
    exact Cursor.fresh_step read

theorem solid_of_reaches (fresh : p.1.Fresh) (solid : p.2.Solid) (h : Reaches source p q) :
    q.2.Solid := by
  induction h with
  | refl => exact solid
  | tail run step ih =>
    obtain ⟨segment, read, added⟩ := step
    obtain ⟨kept, parts, -⟩ := Cursor.lead_step (fresh_of_reaches fresh run) read
    exact Assembly.solid_add ih parts added

/-- Reading on along a run comes to the same. -/
theorem read_of_reaches (h : Reaches source p q) : p.1.read source p.2 = q.1.read source q.2 := by
  induction h with
  | refl => rfl
  | tail _ step ih =>
    obtain ⟨segment, read, added⟩ := step
    rw [ih, Cursor.read_of_ok read, added]
    rfl

/-- A source that is read runs to its end, with no tag open there. -/
theorem reaches_of_read {nodes : List Node} (ok : c.read source a = .ok nodes) :
    ∃ c' a' text place d, Reaches source (c, a) (c', a') ∧
      c'.step = .error (.finished text place d) ∧ a'.frames = [] ∧
      nodes = (Node.pushText text a'.nodes).reverse := by
  induction c using Cursor.induction_step generalizing a with
  | step c ih =>
    cases read : c.step with
    | error ending =>
      rw [Cursor.read_of_error read] at ok
      unfold Assembly.finish at ok
      split at ok
      · cases ok
      · split at ok
        · obtain rfl := Except.ok.inj ok
          exact ⟨c, a, _, _, _, .refl, read, ‹_›, rfl⟩
        · cases ok
    | ok p =>
      obtain ⟨segment, next⟩ := p
      rw [Cursor.read_of_ok read] at ok
      cases added : a.add source segment with
      | error e =>
        rw [added] at ok
        cases ok
      | ok b =>
        rw [added] at ok
        obtain ⟨c', a', text, place, d, run, stop⟩ := ih segment next read ok
        exact ⟨c', a', text, place, d, .head ⟨segment, read, added⟩ run, stop⟩

/-- A run that leaves the lines behind unread does not depend on them. -/
theorem reaches_extend {tail : List Char} (h : Reaches source (c.extend tail, a) q)
    (line : c.EndsLine) (unread : tail.length ≤ q.1.rest.length) :
    ∃ c', q.1 = c'.extend tail ∧ c'.EndsLine ∧ Reaches source (c, a) (c', q.2) := by
  induction h with
  | refl => exact ⟨c, rfl, line, .refl⟩
  | @tail mid q _ step ih =>
    obtain ⟨segment, read, added⟩ := step
    obtain ⟨more, -, passed⟩ := Cursor.passes_step read
    have shorter := congrArg List.length passed.rest
    rw [List.length_append] at shorter
    obtain ⟨c', same, line', run⟩ := ih (by omega)
    rw [same] at read
    obtain ⟨next, cut, read⟩ := Cursor.step_of_extend line' read unread
    exact ⟨next, cut, Cursor.endsLine_step line' read, run.tail ⟨segment, read, added⟩⟩

/-! The tags of a source, in order -/

/-- The tags of a flat reading. -/
def Scan.tags (s : Scan) : List Tag := s.segments.map Segment.tag

namespace Cursor
variable {c next : Cursor} {segment : Segment}

theorem tags_of_ok (h : c.step = .ok (segment, next)) :
    c.scan.tags = segment.tag :: next.scan.tags := by
  rw [Scan.tags, scan_of_ok h, List.map_cons]
  rfl

theorem tags_of_error {ending : Ending} (h : c.step = .error ending) : c.scan.tags = [] := by
  rw [Scan.tags, scan_of_error h]
  rfl

/-- A tag ends behind the body that it closes, and the next one does not reach back to it. -/
theorem bounds_step (fresh : c.Fresh) (h : c.step = .ok (segment, next)) :
    c.place.offset ≤ segment.tag.bodyStop ∧ segment.tag.bodyStop < segment.tag.stop.offset ∧
      segment.tag.stop.offset = next.place.offset := by
  obtain ⟨kept, parts, -⟩ := lead_step fresh h
  obtain ⟨more, some, passed⟩ := passes_step h
  have bytes : 0 < Text.byteLength more := by
    obtain ⟨m, more, rfl⟩ := List.exists_cons_of_ne_nil some
    have := m.utf8Size_pos
    rw [Text.byteLength_cons]
    omega
  rw [bodyStop_step h parts, (stop_step h).1, passed.place, parts, Position.offset_advance,
    Text.byteLength_append, String.toList_append, Text.byteLength_append]
  omega

theorem le_bodyStop (fresh : c.Fresh) {tag : Tag} (mem : tag ∈ c.scan.tags) :
    c.place.offset ≤ tag.bodyStop ∧ tag.bodyStop < tag.stop.offset := by
  induction c using induction_step with
  | step c ih =>
    cases read : c.step with
    | error ending =>
      rw [tags_of_error read] at mem
      cases mem
    | ok p =>
      obtain ⟨segment, next⟩ := p
      obtain ⟨low, high, same⟩ := bounds_step fresh read
      rw [tags_of_ok read] at mem
      rcases List.mem_cons.1 mem with rfl | mem
      · exact ⟨low, high⟩
      · have later := ih segment next read (fresh_step read) mem
        omega

/-- Tags do not overlap. -/
theorem tags_apart (fresh : c.Fresh) :
    c.scan.tags.Pairwise fun first second => first.stop.offset ≤ second.bodyStop := by
  induction c using induction_step with
  | step c ih =>
    cases read : c.step with
    | error ending =>
      rw [tags_of_error read]
      exact .nil
    | ok p =>
      obtain ⟨segment, next⟩ := p
      rw [tags_of_ok read]
      have fresh' := fresh_step read
      refine .cons (fun tag mem => ?_) (ih segment next read fresh')
      rw [(bounds_step fresh read).2.2]
      exact (le_bodyStop fresh' mem).1

end Cursor

/-- One tag ends in front of the other and of the blanks that go with it. -/
def Tag.Apart (x y : Tag) : Prop := x.stop.offset ≤ y.bodyStop ∨ y.stop.offset ≤ x.bodyStop

instance : Std.Symm Tag.Apart := ⟨fun _ _ => .symm⟩

/-- A tag is known by the place where it ends, and by the place where the body ends that it
closes. -/
theorem tag_unique {d : ValidDelimiters} {x y : Tag} (hx : x ∈ (scan source d).tags)
    (hy : y ∈ (scan source d).tags)
    (same : x.stop.offset = y.stop.offset ∨ x.bodyStop = y.bodyStop) : x = y := by
  have fresh := Cursor.fresh_ofSource source d
  -- two tags that are apart share neither end, for each has a length
  have apart : (scan source d).tags.Pairwise Tag.Apart := (Cursor.tags_apart fresh).imp .inl
  have wide := (Cursor.le_bodyStop fresh hx).2
  have wide' := (Cursor.le_bodyStop fresh hy).2
  by_contra other
  rcases apart.forall hx hy other with h | h <;> omega

theorem mem_tags_of_reaches {segment : Segment} {next : Cursor} (h : Reaches source p q)
    (read : q.1.step = .ok (segment, next)) : segment.tag ∈ p.1.scan.tags := by
  induction h using ReflTransGen.head_induction_on with
  | refl =>
    rw [Cursor.tags_of_ok read]
    exact List.mem_cons_self
  | head step _ ih =>
    obtain ⟨first, read, -⟩ := step
    rw [Cursor.tags_of_ok read]
    exact List.mem_cons_of_mem _ ih

end Mustache
