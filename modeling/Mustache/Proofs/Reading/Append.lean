import Mathlib.Data.List.Forall2
import Mustache.Node.Equality
import Mustache.Proofs.Reading.Span

/-! Sources that meet at a line end are read one after the other. -/
namespace Mustache

namespace Cursor
variable {c : Cursor} {source : String} {a : Assembly}

theorem step_finished {text : String} {place : Position} {d : Delimiters}
    (h : c.step = .error (.finished text place d)) :
    Text.occurrence? c.delimiters.val.opening.toList c.rest = none ∧
      text = String.ofList c.rest ∧ place = c.place.advance c.rest ∧ d = c.delimiters.val := by
  rw [step_eq] at h
  split at h
  · rename_i none
    obtain ⟨rfl, rfl, rfl⟩ := Ending.finished.inj (Except.error.inj h)
    exact ⟨none, rfl, by rw [skip, List.take_length], rfl⟩
  · split at h <;> cases h

/-- Lines that follow a text which is read to its end are read from there on, behind its nodes. -/
theorem read_extend (line : c.EndsLine) {nodes : List Node} (ok : c.read source a = .ok nodes) :
    ∃ text place, ∃ d : ValidDelimiters, c.scan.ending = .finished text place d.val ∧
      ∀ tail, (c.extend tail).read source a =
        (Cursor.mk tail (c.place.advance c.rest) [] d).read source ⟨[], nodes.reverse⟩ := by
  induction c using induction_step generalizing a with
  | step c ih =>
    cases read : c.step with
    | error ending =>
      rw [read_of_error read] at ok
      cases ending with
      | failed error => cases ok
      | finished text place d =>
        obtain ⟨none, rfl, rfl, rfl⟩ := step_finished read
        obtain ⟨_ | ⟨f, outer⟩, older⟩ := a
        · obtain rfl := Except.ok.inj ok
          refine ⟨_, _, c.delimiters, by rw [scan_of_error read], fun tail => ?_⟩
          have passed : (c.extend tail).skip c.rest.length =
              ⟨tail, c.place.advance c.rest, [], c.delimiters⟩ := by
            unfold EndsLine at line
            simp [skip, extend, line]
          rw [read_skip (not_opened_extend line none), passed, rest_extend, List.take_left,
            List.reverse_reverse]
          rfl
        · cases ok
    | ok p =>
      obtain ⟨segment, next⟩ := p
      rw [read_of_ok read] at ok
      cases added : a.add source segment with
      | error e =>
        rw [added] at ok
        cases ok
      | ok b =>
        rw [added] at ok
        obtain ⟨more, -, passed⟩ := passes_step read
        obtain ⟨text, place, d, ends, same⟩ := ih segment next read (endsLine_step line read) ok
        rw [passed.place, ← Position.advance_append, ← passed.rest] at same
        refine ⟨text, place, d, by rw [scan_of_ok read, ends], fun tail => ?_⟩
        rw [read_of_ok ((step_extend line).2 read), added]
        exact same tail

/-- No level that is read ends in a text without characters. -/
theorem solid_of_read (fresh : c.Fresh) (solid : a.Solid) {nodes : List Node}
    (ok : c.read source a = .ok nodes) : Node.Solid nodes.reverse := by
  obtain ⟨c', a', text, place, d, run, -, -, rfl⟩ := reaches_of_read ok
  rw [List.reverse_reverse]
  exact Node.solid_pushText (solid_of_reaches fresh solid run) text

end Cursor

namespace Cursor
variable {source longer : String} {d : ValidDelimiters}

@[simp] theorem shift_zero (c : Cursor) : c.shift 0 0 = c := by
  simp only [shift, Position.shift, Nat.zero_add]

theorem extend_ofSource (first second : String) (d : ValidDelimiters) :
    ofSource (first ++ second) d = (ofSource first d).extend second.toList := by
  simp [ofSource, extend]

theorem endsLine_ofSource (line : source.toList = [] ∨ source.toList.getLast? = some '\n') :
    (ofSource source d).EndsLine :=
  foldl_widen_eq_nil.2 (line.imp_left fun empty => ⟨empty, rfl⟩)

/-- A source within a longer one, behind some lines. -/
theorem read_shift (before : List Char) (source longer : String) (d : ValidDelimiters) :
    ((ofSource source d).shift (Text.byteLength before) (before.count '\n')).read longer .empty =
      ((parseNodes source d).map
        (List.map (Node.mapBody (.within longer (Text.byteLength before))))).mapError
      (ParseError.shift (before.count '\n')) :=
  (ofSource source d).read_within longer source _ _ (fresh_ofSource source d) .empty

end Cursor

variable {first second : String} {d e : ValidDelimiters} {nodes : List Node}

/-- A source that ends with a line leaves its nodes and the delimiters that it ends with. -/
theorem parseNodes_lines (line : first.toList = [] ∨ first.toList.getLast? = some '\n')
    (ok : parseNodes first d = .ok nodes) : ∃ text place, ∃ e : ValidDelimiters,
      (scan first d).ending = .finished text place e.val ∧ ∀ second,
      parseNodes (first ++ second) d =
        ((parseNodes second e).map fun more =>
          Node.join (nodes.map (Node.mapBody (.within (first ++ second) 0)))
            (more.map (Node.mapBody
              (.within (first ++ second) (Text.byteLength first.toList))))).mapError
        (ParseError.shift (first.toList.count '\n')) := by
  have ends := Cursor.endsLine_ofSource (d := d) line
  obtain ⟨text, place, e, stop, -⟩ := Cursor.read_extend ends ok
  refine ⟨text, place, e, stop, fun second => ?_⟩
  -- the first source is read within the longer one, for the bodies name their source
  have whole := Cursor.read_shift [] first (first ++ second) d
  rw [ok, Text.byteLength_nil, List.count_nil, Cursor.shift_zero] at whole
  obtain ⟨text', place', e', stop', same⟩ := Cursor.read_extend ends whole
  obtain rfl : e' = e := by
    rw [stop] at stop'
    exact Subtype.ext (Ending.finished.inj (stop'.symm)).2.2
  -- behind it the second one is read from where it begins, moved and with nodes in front
  have solid := Cursor.solid_of_read (Cursor.fresh_ofSource first d) Assembly.solid_empty whole
  have moved : Cursor.mk second.toList (Position.start.advance first.toList) [] e' =
      (Cursor.ofSource second e').shift (Text.byteLength first.toList)
        (first.toList.count '\n') := by
    rw [Position.advance_start line]
    rfl
  have fresh : (Cursor.mk second.toList (Position.start.advance first.toList) [] e').Fresh :=
    fun _ => rfl
  have behind := Cursor.read_onto solid (first ++ second) _ fresh Assembly.solid_empty
  rw [List.reverse_reverse] at behind
  rw [parseNodes_eq, Cursor.extend_ofSource, same]
  refine behind.trans ?_
  rw [moved, Cursor.read_shift]
  cases parseNodes second e' <;> rfl

/-- Sources that meet at a line end are read one after the other: the second one with the delimiters
that the first one ends with, its bodies and its errors moved behind the first. All sections keep
the text of their bodies. -/
theorem parseNodes_append (line : first.toList = [] ∨ first.toList.getLast? = some '\n')
    (ok : parseNodes first d = .ok nodes) : ∃ text place, ∃ e : ValidDelimiters,
      (scan first d).ending = .finished text place e.val ∧ ∀ second,
      parseNodes (first ++ second) d =
        ((parseNodes second e).map fun more =>
          Node.join (nodes.map (Node.mapBody (.within (first ++ second) 0)))
            (more.map (Node.mapBody
              (.within (first ++ second) (Text.byteLength first.toList))))).mapError
        (ParseError.shift (first.toList.count '\n')) ∧
      (∀ s, Node.Occurs nodes (.sect s) →
        (s.body.within (first ++ second) 0).text = s.body.text) ∧
      ∀ more, parseNodes second e = .ok more → ∀ s, Node.Occurs more (.sect s) →
        (s.body.within (first ++ second) (Text.byteLength first.toList)).text = s.body.text := by
  obtain ⟨text, place, e, stop, whole⟩ := parseNodes_lines line ok
  refine ⟨text, place, e, stop, fun second => ⟨whole second, fun s occurs => ?_,
    fun more read s occurs => ?_⟩⟩
  · obtain ⟨source, before, inside, behind, lies⟩ := lies_of_parse ok occurs
    have around : (first ++ second).toList = [] ++ s.body.source.toList ++ second.toList := by
      simp [source]
    exact lies.text_within around
  · obtain ⟨source, before, inside, behind, lies⟩ := lies_of_parse read occurs
    have around : (first ++ second).toList = first.toList ++ s.body.source.toList ++ [] := by
      simp [source]
    exact lies.text_within around

/-- A line of text, and a line that changes the delimiters. -/
def letterhead : String := "Dear\n\x7b\x7b=| |=\x7d\x7d\n"

theorem parseNodes_letterhead :
    letterhead.toList.getLast? = some '\n' ∧
      parseNodes letterhead .standard = .ok [.text "Dear\n"] ∧
      parseNodes (letterhead ++ "all of |team|") .standard =
        .ok [.text "Dear\nall of ", .interpolation "team" true] ∧
      parseNodes (letterhead ++ "all of\n |/team|") .standard =
        .error ⟨4, 2, .strayClosing "team"⟩ := by
  have line : letterhead.toList.getLast? = some '\n' := by decide
  have read : parseNodes letterhead .standard = .ok [.text "Dear\n"] := by decide +kernel
  obtain ⟨text, place, e, stop, whole⟩ := parseNodes_append (.inr line) read
  have ending : (scan letterhead .standard).ending = .finished "" ⟨15, 3, 1⟩ ⟨"|", "|"⟩ := by
    decide +kernel
  have bars : e = ⟨⟨"|", "|"⟩, by decide +kernel⟩ :=
    Subtype.ext (Ending.finished.inj (stop.symm.trans ending)).2.2
  have good : parseNodes "all of |team|" e =
      .ok [.text "all of ", .interpolation "team" true] := by
    rw [bars]
    decide +kernel
  have bad : parseNodes "all of\n |/team|" e = .error ⟨2, 2, .strayClosing "team"⟩ := by
    rw [bars]
    decide +kernel
  refine ⟨line, read, ?_, ?_⟩
  · rw [(whole _).1, good]
    rfl
  · rw [(whole _).1, bad]
    rfl

end Mustache
