import Mustache.Proofs.Reading.Append
import Mustache.Proofs.Reading.Balance
import Mustache.Proofs.Reading.Marks

/-! Where errors point. The place that a cursor has kept along its way is the one that the text in
front of it has, so an error names the line and the column of an offset in the source: of its end,
or of the open delimiter of the tag that is at fault. -/
namespace Mustache

/-- The error points behind this text: its line is one more than the newlines there, its column one
more than the bytes behind the last of them. -/
structure ParseError.PointsBehind (e : ParseError) (before : List Char) : Prop where
  line : e.line = 1 + before.count '\n'
  column : ∃ front last, before = front ++ last ∧ Text.BeginsLine front ∧ '\n' ∉ last ∧
    e.column = 1 + Text.byteLength last

theorem ParseError.pointsBehind_at (before : List Char) (kind : ParseErrorKind) :
    (ParseError.at (Position.start.advance before) kind).PointsBehind before where
  line := Position.line_advance .start before
  column := by
    obtain ⟨front, last, rfl, begins, single⟩ := Text.exists_beginsLine before
    exact ⟨front, last, rfl, begins, single, Position.column_beginsLine begins single⟩

section Content
variable {content : List Char} {kind : ParseErrorKind}

theorem checkName_error {f : String → Directive} (h : (checkName content).map f = .error kind) :
    ∃ description, kind = .expected description := by
  unfold checkName at h
  dsimp only at h
  split at h
  · exact ⟨_, (Except.error.inj h).symm⟩
  · split at h
    · exact ⟨_, (Except.error.inj h).symm⟩
    · cases h

theorem checkDelimiters_error {f : ValidDelimiters → Directive}
    (h : (checkDelimiters content).map f = .error kind) :
    ∃ text, kind = .invalidDelimiters text := by
  unfold checkDelimiters at h
  dsimp only at h
  split at h
  · split at h
    · cases h
    · exact ⟨_, (Except.error.inj h).symm⟩
  · exact ⟨_, (Except.error.inj h).symm⟩

/-- What can be wrong with the content of a tag. -/
theorem Directive.ofContent_error {sigil : Sigil} (h : ofContent sigil content = .error kind) :
    (∃ description, kind = .expected description) ∨ ∃ text, kind = .invalidDelimiters text := by
  cases sigil with
  | comment => cases h
  | delimiters => exact .inr (checkDelimiters_error h)
  | escaped | raw | opening | closing | inclusion => exact .inl (checkName_error h)

end Content

namespace Cursor

/-- The end of the source is where a scan that finishes stops. -/
theorem place_of_finished {c : Cursor} {text : String} {place : Position} {last : Delimiters}
    (h : c.scan.ending = .finished text place last) : place = c.place.advance c.rest := by
  induction c using induction_step with
  | step c ih =>
    cases read : c.step with
    | error ending =>
      rw [scan_of_error read] at h
      obtain rfl : ending = _ := h
      exact (step_finished read).2.2.1
    | ok p =>
      obtain ⟨segment, next⟩ := p
      rw [scan_of_ok read] at h
      obtain ⟨more, -, passed⟩ := passes_step read
      rw [ih segment next read h, passed.place, passed.rest, ← Position.advance_append]

end Cursor

/-- Why a source cannot be read. -/
theorem offends_of_parseNodes {source : String} {d : ValidDelimiters} {e : ParseError}
    (failed : parseNodes source d = .error e) : (scan source d).Offends e := by
  rcases (scan source d).nests_or_offends with nests | ⟨error, offends⟩
  · obtain ⟨nodes, ok⟩ := parseNodes_of_nests nests
    rw [ok] at failed
    cases failed
  · rw [parseNodes_of_offends offends] at failed
    exact Except.error.inj failed ▸ offends

/-- An error that names the end of the source, or the open delimiter of a tag in it. -/
inductive ParseError.Located (source : String) (d : ValidDelimiters) (e : ParseError) : Prop
  | ending (points : e.PointsBehind source.toList) {awaited : String}
    (kind : e.kind = .unexpectedEnd awaited) : Located source d e
  | tag {m : Mark} (mem : m ∈ marks source d) (points : e.PointsBehind m.before)
    (kind : (∃ wanted found, e.kind = .unexpectedToken wanted found) ∨
      (∃ description, e.kind = .expected description) ∨ ∃ text, e.kind = .invalidDelimiters text) :
    Located source d e

variable {source : String} {d : ValidDelimiters} {e : ParseError}

theorem located_of_offends (h : (scan source d).Offends e) : e.Located source d := by
  cases h with
  | @closing before after segment names _ split _ offends =>
    have mem : segment ∈ (scan source d).segments := by
      rw [split]
      exact List.mem_append_right _ List.mem_cons_self
    obtain ⟨m, mem, text, line, behind, stands⟩ := (Scan.marked source d).exists_stands mem
    have place : segment.tag.start = Position.start.advance m.before := stands.start
    cases offends with
    | stray | mismatched =>
      rw [place]
      exact .tag mem (ParseError.pointsBehind_at _ _) (.inl ⟨_, _, rfl⟩)
  | malformed _ failed =>
    obtain ⟨m, mem, bad⟩ := (Scan.marked source d).exists_failed failed
    have whole : m.before ++ m.rest = source.toList := ((Scan.marked source d).divides mem).whole
    rw [Cursor.readTag_eq] at bad
    split at bad
    · obtain rfl := Except.error.inj bad
      have finish : (m.cursor.skip m.cursor.rest.length).place =
          Position.start.advance source.toList := by
        rw [← whole, Position.advance_append, ← List.take_length (l := m.rest)]
        rfl
      rw [finish]
      exact .ending (ParseError.pointsBehind_at _ _) rfl
    · split at bad
      · rename_i wrong
        obtain rfl := Except.error.inj bad
        exact .tag mem (ParseError.pointsBehind_at _ _) (.inr (Directive.ofContent_error wrong))
      · cases bad
  | unclosed _ finished =>
    rw [Cursor.place_of_finished finished]
    exact .ending (ParseError.pointsBehind_at _ _) rfl

theorem Template.error_of_parseWith (failed : Template.parseWith d.val source = .error e) :
    parseNodes source d = .error e := by
  unfold Template.parseWith at failed
  rw [dif_pos d.property] at failed
  cases read : parseNodes source d with
  | error error =>
    rw [read] at failed
    exact congrArg Except.error (Except.error.inj failed)
  | ok nodes =>
    rw [read] at failed
    cases failed

/-- Where a source cannot be read, its reading by descent fails in the same way, and not for text
that is left over. The error has the line and the column of an offset in the source: of its end if
more was awaited there, and otherwise of the place where a tag opens, with the open delimiter that
is in force there. -/
theorem Template.parseWith_error_points (failed : Template.parseWith d.val source = .error e) :
    parseByDescent source d = .error e ∧ (∀ words, e.kind ≠ .message words) ∧
      ∃ before rest, source.toList = before ++ rest ∧ e.PointsBehind before ∧
        ((∃ awaited, e.kind = .unexpectedEnd awaited) → rest = []) ∧
        ((∀ awaited, e.kind ≠ .unexpectedEnd awaited) → ∃ inForce : ValidDelimiters,
          Mark.mk before rest inForce ∈ marks source d ∧ inForce.val.opening.toList <+: rest) := by
  have unread := Template.error_of_parseWith failed
  refine ⟨(parseByDescent_eq source d).trans unread, ?_⟩
  cases located_of_offends (offends_of_parseNodes unread) with
  | ending points kind =>
    refine ⟨fun words message => ?_, source.toList, [], (List.append_nil _).symm, points,
      fun _ => rfl, fun other => absurd kind (other _)⟩
    rw [kind] at message
    cases message
  | @tag m mem points kind =>
    obtain ⟨-, whole, opens⟩ := (Scan.marked source d).divides mem
    refine ⟨fun words message => ?_, m.before, m.rest, whole.symm, points,
      fun ⟨awaited, ends⟩ => ?_, fun _ => ⟨m.delimiters, mem, opens⟩⟩
    · rcases kind with ⟨_, _, kind⟩ | ⟨_, kind⟩ | ⟨_, kind⟩ <;>
        (rw [kind] at message; cases message)
    · rcases kind with ⟨_, _, kind⟩ | ⟨_, kind⟩ | ⟨_, kind⟩ <;> (rw [kind] at ends; cases ends)

/-- Two lines in front of a tag with two names, and other delimiters than those at the start. -/
def roster : String := "Dear\n\x7b\x7b=| |=\x7d\x7d\r\n  all of |#team one|\n"

theorem parseWith_roster :
    Template.parseWith .standard roster = .error ⟨3, 10, .nameBroken "team one"⟩ ∧
      ∃ before rest, roster.toList = before ++ rest ∧ before.count '\n' = 2 ∧
        ∃ inForce : ValidDelimiters, Mark.mk before rest inForce ∈ marks roster .standard ∧
          inForce.val.opening.toList <+: rest := by
  have failed : Template.parseWith .standard roster =
      .error ⟨3, 10, .nameBroken "team one"⟩ := by decide +kernel
  obtain ⟨-, -, before, rest, whole, points, -, opens⟩ :=
    Template.parseWith_error_points (d := .standard) failed
  have line := points.line
  refine ⟨failed, before, rest, whole, ?_, opens nofun⟩
  have lines : 3 = 1 + before.count '\n' := line
  omega

end Mustache
