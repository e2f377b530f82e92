import Mustache.Proofs.Reading.Print

/-! The tags of a source where they stand in it: the text in front of each, its own text, the text
behind it, and the blanks and the line end around a tag that is alone on its line. Then what a step
reads is compared with the tag that stands there. -/
namespace Mustache

/-! Lines -/

namespace Text
variable {before front line rest : List Char} {n : Nat}

/-- A line begins behind this text. -/
def BeginsLine (before : List Char) : Prop := before = [] ∨ before.getLast? = some '\n'

/-- The end of a line and the text behind it. The end of the source ends a line too. -/
inductive LineEnd : List Char → List Char → Prop
  | newline {rest : List Char} : LineEnd ['\n'] rest
  | carriage {rest : List Char} : LineEnd ['\r', '\n'] rest
  | source : LineEnd [] []

/-- Of a text with a line begun in it, only that line precedes a place on its line. -/
theorem foldl_widen_beginsLine (h : BeginsLine front) (single : '\n' ∉ line) :
    (front ++ line).foldl Cursor.widen [] = line.reverse := by
  rw [List.foldl_append, Cursor.foldl_widen_eq_nil.2 (h.imp_left fun none => ⟨none, rfl⟩),
    Cursor.foldl_widen single, List.append_nil]

theorem exists_beginsLine (before : List Char) :
    ∃ front line, before = front ++ line ∧ BeginsLine front ∧ '\n' ∉ line := by
  rcases no_newline_or_last before with none | ⟨front, line, rfl, last⟩
  · exact ⟨[], before, rfl, .inl rfl, none⟩
  · exact ⟨front ++ ['\n'], line, by simp, .inr (by simp), last⟩

theorem newline_not_mem_of_blank (h : line.all isBlank = true) : '\n' ∉ line := fun mem => by
  simpa [not_isBlank_newline] using List.all_eq_true.1 h _ mem

theorem lineEnd?_eq_some_iff :
    Cursor.lineEnd? rest = some n ↔ ∃ blanks ending tail, rest = blanks ++ ending ++ tail ∧
      blanks.all isBlank = true ∧ LineEnd ending tail ∧ n = (blanks ++ ending).length := by
  constructor
  · intro h
    have split := (List.takeWhile_append_dropWhile (p := isBlank) (l := rest)).symm
    have blank : (rest.takeWhile isBlank).all isBlank = true := List.all_takeWhile
    unfold Cursor.lineEnd? at h
    split at h <;> rename_i behind
    · obtain rfl := Option.some.inj h
      exact ⟨_, [], [], by simpa [behind] using split, blank, .source, by simp⟩
    · obtain rfl := Option.some.inj h
      rw [behind] at split
      exact ⟨_, ['\n'], _, by simpa using split, blank, .newline, by simp⟩
    · obtain rfl := Option.some.inj h
      rw [behind] at split
      exact ⟨_, ['\r', '\n'], _, by simpa using split, blank, .carriage, by simp⟩
    · cases h
  · rintro ⟨blanks, ending, tail, rfl, blank, ends, rfl⟩
    have all := List.all_eq_true.1 blank
    unfold Cursor.lineEnd?
    rw [List.append_assoc, List.takeWhile_append_of_pos all, List.dropWhile_append_of_pos all]
    cases ends <;> simp [isBlank]

/-- A text is what stands in front of a mark, the mark, and the rest. -/
theorem split_of_occurrence? {mark cs : List Char} (h : occurrence? mark cs = some n) :
    cs = cs.take n ++ (mark ++ cs.drop (n + mark.length)) := by
  obtain ⟨tail, ht⟩ := occurrence?_spec h
  rw [← List.drop_drop, ← ht, List.drop_left, ht, List.take_append_drop]

end Text

/-- On a line that begins behind a text, the column counts the line alone. -/
theorem Position.column_beginsLine {front line : List Char} (h : Text.BeginsLine front)
    (single : '\n' ∉ line) :
    (start.advance (front ++ line)).column = 1 + Text.byteLength line := by
  rw [advance_append, column_advance single, advance_start h]
  rfl

/-! Tags -/

/-- At most one character marks the kind of a tag. A brace asks for another one in front of the
close delimiter. -/
theorem Sigil.ofRest_marks_end (d : Delimiters) (cs : List Char) : (ofRest d cs).2.1 ≤ 1 ∧
    ((ofRest d cs).2.2 = d.closing.toList ∨
      cs.take (ofRest d cs).2.1 = ['\x7b'] ∧ (ofRest d cs).2.2 = '\x7d' :: d.closing.toList) := by
  cases cs with
  | nil => exact ⟨Nat.zero_le 1, .inl rfl⟩
  | cons c tail =>
    unfold ofRest
    dsimp only
    split
    · rename_i triple
      exact ⟨Nat.le_refl 1, .inr ⟨by rw [triple.2]; rfl, rfl⟩⟩
    · split
      · exact ⟨Nat.le_refl 1, .inl rfl⟩
      · exact ⟨Nat.zero_le 1, .inl rfl⟩

/-- A slash behind the open delimiter marks a closing tag, and nothing else does. -/
theorem Sigil.ofRest_closing {d : Delimiters} {cs : List Char} (h : (ofRest d cs).1 = .closing) :
    cs.take (ofRest d cs).2.1 = ['/'] ∧ (ofRest d cs).2.2 = d.closing.toList := by
  cases cs with
  | nil => cases h
  | cons c tail =>
    unfold ofRest at h ⊢
    dsimp only at h ⊢
    by_cases triple : d.opening = Delimiters.standard.opening ∧ c = '\x7b'
    · rw [if_pos triple] at h
      cases h
    · rw [if_neg triple] at h ⊢
      cases kind : ofChar? c with
      | none =>
        rw [kind] at h
        cases h
      | some sigil =>
        rw [kind] at h
        obtain rfl : sigil = .closing := h
        unfold ofChar? at kind
        split at kind <;> cases kind
        exact ⟨rfl, rfl⟩

theorem checkName_ok {content : List Char} {name : String} (h : checkName content = .ok name) :
    name = String.ofList (Text.trim content) := by
  unfold checkName at h
  dsimp only at h
  split at h
  · cases h
  · split at h
    · cases h
    · exact (Except.ok.inj h).symm

theorem Directive.ofContent_closing {sigil : Sigil} {content : List Char} {name : String}
    (h : ofContent sigil content = .ok (.closing name)) :
    sigil = .closing ∧ Text.trim content = name.toList := by
  cases sigil with
  | closing =>
    obtain ⟨word, read, same⟩ := exists_of_map_ok h
    obtain rfl := Directive.closing.inj same
    exact ⟨rfl, by rw [checkName_ok read, String.toList_ofList]⟩
  | comment => cases h
  | delimiters | escaped | raw | opening | inclusion =>
    obtain ⟨_, -, other⟩ := exists_of_map_ok h
    cases other

/-- The cursor between two parts of a source. -/
def Cursor.between (before rest : List Char) (d : ValidDelimiters) : Cursor :=
  ⟨rest, Position.start.advance before, before.foldl widen [], d⟩

theorem Cursor.skip_between (before rest : List Char) (d : ValidDelimiters) (n : Nat) :
    (between before rest d).skip n = between (before ++ rest.take n) (rest.drop n) d := by
  simp only [skip, between, Position.advance_append, List.foldl_append]

/-- A place where a tag opens: the source in front of it, the source from its open delimiter on, and
the delimiters in force. -/
structure Mark where
  before : List Char
  rest : List Char
  delimiters : ValidDelimiters

namespace Mark

def cursor (m : Mark) : Cursor := .between m.before m.rest m.delimiters

/-- The mark divides a source, not in front of this text, and the open delimiter in force stands
there. -/
structure Divides (m : Mark) (before rest : List Char) : Prop where
  front : before <+: m.before
  whole : m.before ++ m.rest = before ++ rest
  opens : m.delimiters.val.opening.toList <+: m.rest

/-- The tag that opens here: what it says, its own text, and the source behind it. -/
structure Reads (m : Mark) (directive : Directive) (text after : List Char) : Prop where
  rest : m.rest = text ++ after
  read : m.cursor.readTag = .ok (directive, .between (m.before ++ text) after m.delimiters)

/-- How a tag in front of `after` is spelled: the open delimiter in force, at most one character for
its kind, the content, and its end where that first stands. The end is the close delimiter, with a
brace in front of it if a brace stands for the kind. -/
structure Spelled (m : Mark) (text after kind content close : List Char) : Prop where
  text_eq : text = m.delimiters.val.opening.toList ++ (kind ++ (content ++ close))
  single : kind.length ≤ 1
  ends : close = m.delimiters.val.closing.toList ∨
    kind = ['\x7b'] ∧ close = '\x7d' :: m.delimiters.val.closing.toList
  first : ∀ k < content.length, ¬ close <+: (content ++ (close ++ after)).drop k

/-- The tag in front of `after` is alone on its line, with these blanks in front of it, and these
blanks and the line end behind. -/
structure Alone (m : Mark) (after leading trailing : List Char) : Prop where
  front : ∃ front, m.before = front ++ leading ∧ Text.BeginsLine front
  blank : leading.all Text.isBlank = true
  back : ∃ blanks ending rest, trailing = blanks ++ ending ∧ after = trailing ++ rest ∧
    blanks.all Text.isBlank = true ∧ Text.LineEnd ending rest

end Mark

/-- The places where the tags of a source open, from left to right. A malformed tag is the last. -/
def marksFrom (before rest : List Char) (d : ValidDelimiters) : List Mark :=
  match _found : Text.occurrence? d.val.opening.toList rest with
  | none => []
  | some n =>
    let m : Mark := ⟨before ++ rest.take n, rest.drop n, d⟩
    match _read : m.cursor.readTag with
    | .error _ => [m]
    | .ok (directive, after) =>
      let text := m.rest.take (m.rest.length - after.rest.length)
      m :: marksFrom (m.before ++ text) after.rest (directive.delimitersAfter d)
termination_by rest.length
decreasing_by
  obtain ⟨k, passed, behind⟩ := Cursor.readTag_rest _read
  have opening := d.property.opening_length
  have fits := Text.occurrence?_length _found
  have passed : d.val.opening.toList.length ≤ k := passed
  have behind : after.rest = (rest.drop n).drop k := behind
  rw [behind, List.length_drop, List.length_drop]
  omega

/-- The places where the tags of a source open. -/
def marks (source : String) (d : ValidDelimiters) : List Mark := marksFrom [] source.toList d

namespace Mark
variable {m : Mark} {directive : Directive} {text after leading trailing : List Char}

theorem alone_iff : m.Alone after leading trailing ↔
    m.cursor.margin = leading.reverse ∧ leading.all Text.isBlank = true ∧
      Cursor.lineEnd? after = some trailing.length ∧ trailing = after.take trailing.length := by
  constructor
  · rintro ⟨⟨front, before, begins⟩, blank, blanks, ending, rest, rfl, rfl, blank', ends⟩
    refine ⟨?_, blank, Text.lineEnd?_eq_some_iff.2 ⟨blanks, ending, rest, rfl, blank', ends, rfl⟩,
      List.take_left.symm⟩
    rw [cursor, Cursor.between, before]
    exact Text.foldl_widen_beginsLine begins (Text.newline_not_mem_of_blank blank)
  · rintro ⟨margin, blank, line, taken⟩
    obtain ⟨blanks, ending, rest, rfl, blank', ends, length⟩ := Text.lineEnd?_eq_some_iff.1 line
    rw [length, List.take_left] at taken
    obtain ⟨front, last, before, begins, single⟩ := Text.exists_beginsLine m.before
    rw [cursor, Cursor.between, before, Text.foldl_widen_beginsLine begins single] at margin
    obtain rfl := List.reverse_injective margin
    exact ⟨⟨front, before, begins⟩, blank, blanks, ending, rest, taken, by rw [taken], blank', ends⟩

/-- Nothing but white space goes with a tag of its line. -/
theorem Alone.white (h : m.Alone after leading trailing) :
    ∀ c ∈ trailing, Text.isWhiteSpace c = true := by
  obtain ⟨blanks, ending, rest, rfl, -, blank, ends⟩ := h.back
  intro c mem
  rcases List.mem_append.1 mem with mem | mem
  · exact Text.isWhiteSpace_of_isBlank (List.all_eq_true.1 blank c mem)
  · cases ends <;> simp at mem
    · exact mem ▸ rfl
    · rcases mem with rfl | rfl <;> rfl

theorem Reads.take_rest (h : m.Reads directive text after) :
    m.rest.take (m.rest.length - after.length) = text := by
  rw [h.rest, List.length_append, Nat.add_sub_cancel, List.take_left]

theorem Reads.unique {directive' : Directive} {text' after' : List Char}
    (h : m.Reads directive text after) (h' : m.Reads directive' text' after') :
    directive = directive' ∧ text = text' ∧ after = after' := by
  obtain ⟨same, cursors⟩ := Prod.mk.inj (Except.ok.inj (h.read.symm.trans h'.read))
  obtain rfl : after = after' := congrArg Cursor.rest cursors
  exact ⟨same, List.append_cancel_right (h.rest.symm.trans h'.rest), rfl⟩

/-- What is read as a tag is spelled as one, and its content says what it does. -/
theorem Reads.spelled (opens : m.delimiters.val.opening.toList <+: m.rest)
    (h : m.Reads directive text after) : ∃ content, m.Spelled text after
      ((m.rest.drop m.delimiters.val.opening.toList.length).take m.cursor.sigil.2.1) content
      m.cursor.sigil.2.2 ∧ Directive.ofContent m.cursor.sigil.1 content = .ok directive := by
  obtain ⟨n, found, meaning, skipped⟩ := Cursor.readTag_ok_iff.1 h.read
  have ends := Sigil.ofRest_marks_end m.delimiters.val
    (m.rest.drop m.delimiters.val.opening.toList.length)
  change m.cursor.sigil.2.1 ≤ 1 ∧ (m.cursor.sigil.2.2 = _ ∨ List.take m.cursor.sigil.2.1 _ = _ ∧
    m.cursor.sigil.2.2 = _) at ends
  obtain ⟨inside, hi⟩ : ∃ inside, m.rest.drop m.cursor.contentStart = inside := ⟨_, rfl⟩
  change Text.occurrence? _ (m.rest.drop m.cursor.contentStart) = some n at found
  change Directive.ofContent _ ((m.rest.drop m.cursor.contentStart).take n) = _ at meaning
  rw [hi] at found meaning
  have behind : after = inside.drop (n + m.cursor.sigil.2.2.length) := by
    rw [← hi, List.drop_drop, ← Nat.add_assoc]
    exact congrArg Cursor.rest skipped
  have parts := Text.split_of_occurrence? found
  rw [← behind] at parts
  refine ⟨inside.take n, ⟨?_, (List.length_take_le _ _).trans ends.1, ends.2, ?_⟩, meaning⟩
  · have whole : text ++ after = m.delimiters.val.opening.toList ++
        ((m.rest.drop m.delimiters.val.opening.toList.length).take m.cursor.sigil.2.1 ++
          inside) := by
      have start : m.cursor.contentStart =
        m.delimiters.val.opening.toList.length + m.cursor.sigil.2.1 := rfl
      rw [← h.rest, ← hi, start, ← List.drop_drop, List.take_append_drop]
      exact (List.prefix_iff_eq_append.1 opens).symm
    rw [parts, ← List.append_assoc, ← List.append_assoc, ← List.append_assoc] at whole
    rw [List.append_cancel_right whole]
    simp only [List.append_assoc]
  · rw [← parts]
    exact fun k hk =>
      Text.occurrence?_least found (Nat.lt_of_lt_of_le hk (List.length_take_le _ _))

/-- How a closing tag is spelled. -/
theorem Reads.spelled_closing {name : String} (opens : m.delimiters.val.opening.toList <+: m.rest)
    (h : m.Reads (.closing name) text after) : ∃ content, Text.trim content = name.toList ∧
      m.Spelled text after ['/'] content m.delimiters.val.closing.toList := by
  obtain ⟨content, spelled, meaning⟩ := h.spelled opens
  obtain ⟨kind, trimmed⟩ := Directive.ofContent_closing meaning
  have mark : (m.rest.drop m.delimiters.val.opening.toList.length).take m.cursor.sigil.2.1 =
      ['/'] := (Sigil.ofRest_closing kind).1
  have close : m.cursor.sigil.2.2 = m.delimiters.val.closing.toList :=
    (Sigil.ofRest_closing kind).2
  rw [mark, close] at spelled
  exact ⟨content, trimmed, spelled⟩

/-- A tag that is read has an extent. -/
theorem reads_of_readTag {c : Cursor} (h : m.cursor.readTag = .ok (directive, c)) :
    ∃ text, m.Reads directive text c.rest ∧
      c = .between (m.before ++ text) c.rest m.delimiters := by
  obtain ⟨n, -, -, skipped⟩ := Cursor.readTag_ok_iff.1 h
  obtain ⟨k, hk⟩ : ∃ k, m.cursor.contentStart + n + m.cursor.sigil.2.2.length = k := ⟨_, rfl⟩
  rw [hk, cursor, Cursor.skip_between] at skipped
  have rest : c.rest = m.rest.drop k := by rw [skipped]; rfl
  have whole : c = .between (m.before ++ m.rest.take k) c.rest m.delimiters := by
    rw [rest]
    exact skipped
  refine ⟨m.rest.take k, ⟨?_, ?_⟩, whole⟩
  · rw [rest, List.take_append_drop]
  · rw [h, ← whole]

end Mark

section From
variable {before rest line : List Char} {d : ValidDelimiters} {n : Nat}

theorem divides_of_occurrence (before : List Char)
    (found : Text.occurrence? d.val.opening.toList rest = some n) :
    (Mark.mk (before ++ rest.take n) (rest.drop n) d).Divides before rest where
  front := List.prefix_append _ _
  whole := by rw [List.append_assoc, List.take_append_drop]
  opens := Text.occurrence?_spec found

theorem marksFrom_of_none (h : Text.occurrence? d.val.opening.toList rest = none) :
    marksFrom before rest d = [] := by
  rw [marksFrom]
  split
  · rfl
  · simp_all

theorem marksFrom_of_error (h : Text.occurrence? d.val.opening.toList rest = some n)
    {error : ParseError}
    (failed : (Mark.mk (before ++ rest.take n) (rest.drop n) d).cursor.readTag = .error error) :
    marksFrom before rest d = [⟨before ++ rest.take n, rest.drop n, d⟩] := by
  rw [marksFrom]
  split
  · simp_all
  · rename_i found
    obtain rfl := Option.some.inj (h.symm.trans found)
    dsimp only
    split
    · rfl
    · rename_i read
      rw [failed] at read
      cases read

theorem marksFrom_of_reads (h : Text.occurrence? d.val.opening.toList rest = some n)
    {directive : Directive} {text after : List Char}
    (reads : (Mark.mk (before ++ rest.take n) (rest.drop n) d).Reads directive text after) :
    marksFrom before rest d = ⟨before ++ rest.take n, rest.drop n, d⟩ ::
      marksFrom (before ++ rest.take n ++ text) after (directive.delimitersAfter d) := by
  rw [marksFrom]
  split
  · simp_all
  · rename_i found
    obtain rfl := Option.some.inj (h.symm.trans found)
    dsimp only
    split <;> rename_i read <;> rw [reads.read] at read
    · cases read
    · obtain ⟨rfl, rfl⟩ := Prod.mk.inj (Except.ok.inj read)
      have taken : (rest.drop n).take ((rest.drop n).length - after.length) = text :=
        reads.take_rest
      simp only [Cursor.between, taken]

/-- Text in which no tag opens can be passed. -/
theorem marksFrom_append
    (h : ∀ k < line.length, ¬ d.val.opening.toList <+: (line ++ rest).drop k) :
    marksFrom before (line ++ rest) d = marksFrom (before ++ line) rest d := by
  have search := Text.occurrence?_drop h
  rw [List.drop_left] at search
  cases found : Text.occurrence? d.val.opening.toList rest with
  | none =>
    rw [found] at search
    rw [marksFrom_of_none search, marksFrom_of_none found]
  | some n =>
    rw [found, Option.map_some] at search
    have taken : before ++ (line ++ rest).take (line.length + n) =
        before ++ line ++ rest.take n := by
      rw [List.take_length_add_append, List.append_assoc]
    have dropped : (line ++ rest).drop (line.length + n) = rest.drop n :=
      List.drop_length_add_append n
    cases read : (Mark.mk (before ++ line ++ rest.take n) (rest.drop n) d).cursor.readTag with
    | error e =>
      have failed := read
      rw [← taken, ← dropped] at failed
      rw [marksFrom_of_error found read, marksFrom_of_error search failed, taken, dropped]
    | ok p =>
      obtain ⟨text, reads, -⟩ := Mark.reads_of_readTag read
      have reads' := reads
      rw [← taken, ← dropped] at reads'
      rw [marksFrom_of_reads found reads, marksFrom_of_reads search reads', taken, dropped]

end From

/-! Steps -/

/-- A segment whose tag opens at a mark: the text of the tag, what goes with it of its line, and
what is still to be read. If the tag is alone on its line, that is the rest of the line, and the
indent is what stands in front. -/
structure Segment.Stands (g : Segment) (m : Mark) (text line rest : List Char) : Prop where
  reads : m.Reads g.tag.directive text (line ++ rest)
  start : g.tag.start = m.cursor.place
  stop : g.tag.stop = (Cursor.between (m.before ++ (text ++ line)) rest m.delimiters).place
  delimiters : g.tag.delimiters = m.delimiters.val
  alone : g.tag.alone = true →
    g.tag.directive.canStandAlone = true ∧ m.Alone (line ++ rest) g.tag.indent.toList line
  unique {leading trailing : List Char} : g.tag.directive.canStandAlone = true →
    m.Alone (line ++ rest) leading trailing →
      g.tag.alone = true ∧ leading = g.tag.indent.toList ∧ trailing = line
  beside : g.tag.alone = false → g.tag.indent = "" ∧ line = []

namespace Cursor
variable {before rest : List Char} {d : ValidDelimiters} {g : Segment} {next : Cursor}

theorem alone_of_aloneUntil? {m : Mark} {after : Cursor} {directive : Directive} {k : Nat}
    (h : aloneUntil? m.cursor after directive = some k) : directive.canStandAlone = true ∧
      m.Alone after.rest m.cursor.margin.reverse (after.rest.take k) := by
  unfold aloneUntil? at h
  split at h
  · rename_i both
    obtain ⟨kind, blank⟩ := Bool.and_eq_true_iff.1 both
    have length : (after.rest.take k).length = k := List.length_take_of_le (lineEnd?_spec h).1
    refine ⟨kind, Mark.alone_iff.2 ⟨by simp, by simpa using blank, ?_, ?_⟩⟩ <;> rw [length]
    exact h
  · cases h

theorem aloneUntil?_of_alone {m : Mark} {after : Cursor} {directive : Directive}
    {leading trailing : List Char} (kind : directive.canStandAlone = true)
    (h : m.Alone after.rest leading trailing) :
    aloneUntil? m.cursor after directive = some trailing.length := by
  obtain ⟨margin, blank, line, -⟩ := Mark.alone_iff.1 h
  unfold aloneUntil?
  rw [kind, margin, List.all_reverse, blank, line]
  rfl

/-- What a step makes of a tag that has been read. -/
theorem stands_through {c after : Cursor} {m : Mark} {n : Nat} {directive : Directive}
    {text : List Char} (start : c.skip n = m.cursor) (reads : m.Reads directive text after.rest)
    (extent : after = between (m.before ++ text) after.rest m.delimiters) :
    ∃ line behind, after.rest = line ++ behind ∧
      (∀ ch ∈ line, Text.isWhiteSpace ch = true) ∧
      (c.through n directive after).1.Stands m text line behind ∧
      (c.through n directive after).2 =
        between (m.before ++ (text ++ line)) behind (directive.delimitersAfter m.delimiters) := by
  have here : m.delimiters = c.delimiters := by
    change m.cursor.delimiters = _
    rw [← start]
    rfl
  obtain ⟨line, hl⟩ : ∃ line, aloneUntil? m.cursor after directive = line := ⟨_, rfl⟩
  obtain ⟨k, hk⟩ : ∃ k, line.getD 0 = k := ⟨_, rfl⟩
  have split : after.rest.take k ++ after.rest.drop k = after.rest := List.take_append_drop k _
  have passed : after.skip k =
      between (m.before ++ (text ++ after.rest.take k)) (after.rest.drop k) m.delimiters := by
    rw [extent, skip_between, List.append_assoc]
    rfl
  have next : (c.through n directive after).2 = between (m.before ++ (text ++ after.rest.take k))
      (after.rest.drop k) (directive.delimitersAfter m.delimiters) := by
    rw [through, start, hl, hk, passed, here]
    rfl
  refine ⟨after.rest.take k, after.rest.drop k, split.symm, ?_, ?_, next⟩
  · cases line with
    | none =>
      obtain rfl : 0 = k := hk
      exact List.forall_mem_nil _
    | some j =>
      obtain rfl : j = k := hk
      exact (alone_of_aloneUntil? hl).2.white
  · rw [through, start, hl, hk]
    refine ⟨?_, rfl, ?_, ?_, ?_, ?_, ?_⟩
    · rw [split]
      exact reads
    · rw [passed]
    · rw [here]
    · intro alone
      obtain ⟨j, rfl⟩ := Option.isSome_iff_exists.1 alone
      obtain rfl : j = k := hk
      simpa [split] using alone_of_aloneUntil? hl
    · intro leading trailing kind alone
      rw [split] at alone
      have found := aloneUntil?_of_alone kind alone
      obtain rfl : some trailing.length = line := found.symm.trans hl
      obtain rfl : trailing.length = k := hk
      obtain ⟨margin, -, -, taken⟩ := Mark.alone_iff.1 alone
      simp [margin, ← taken]
    · intro alone
      obtain rfl := Option.not_isSome_iff_eq_none.1 (Bool.eq_false_iff.1 alone)
      obtain rfl : 0 = k := hk
      simp

/-- A step comes to the tag that opens next, and goes past what goes with it of its line. -/
theorem stands_of_step (h : (between before rest d).step = .ok (g, next)) :
    ∃ m text line behind, m.before = before ++ g.lead.toList ∧ m.Divides before rest ∧
      g.Stands m text line behind ∧
      next = between (m.before ++ (text ++ line)) behind (g.tag.directive.delimitersAfter d) ∧
      marksFrom before rest d = m :: marksFrom (m.before ++ (text ++ line)) behind
        (g.tag.directive.delimitersAfter d) := by
  obtain ⟨n, directive, after, found, read, made⟩ := step_ok_iff.1 h
  rw [skip_between] at read
  obtain ⟨text, reads, extent⟩ :=
    Mark.reads_of_readTag (m := ⟨before ++ rest.take n, rest.drop n, d⟩) read
  obtain ⟨line, behind, split, white, stands, further⟩ :=
    stands_through (skip_between before rest d n) reads extent
  rw [← made] at stands further
  have lead : g.lead.toList = rest.take n := by
    rw [(Prod.mk.inj made).1]
    exact String.toList_ofList
  have kind : g.tag.directive = directive := by
    rw [(Prod.mk.inj made).1]
  have found : Text.occurrence? d.val.opening.toList rest = some n := found
  have opening := (directive.delimitersAfter d).property.1
  have unopened : ∀ c ∈ line, c ∉ (directive.delimitersAfter d).val.opening.toList := by
    intro c mem inside
    have ink := Delimiters.not_isWhiteSpace_of_usable opening inside
    rw [white c mem] at ink
    cases ink
  have marked := marksFrom_of_reads found reads
  rw [split, marksFrom_append
    (Text.not_prefix_of_clear (Delimiters.toList_ne_nil_of_usable opening) unopened),
    List.append_assoc _ text line] at marked
  rw [kind]
  refine ⟨_, text, line, behind, ?_, divides_of_occurrence before found, stands, further, marked⟩
  rw [lead]

end Cursor

/-- The segments that are read of a source from some place on, and the marks in it. -/
inductive Scan.Marked : List Char → List Char → ValidDelimiters → List Mark → Scan → Prop
  | ends {before rest : List Char} {d : ValidDelimiters} {place : Position} :
    Marked before rest d [] ⟨[], .finished (String.ofList rest) place d.val⟩
  | fails {before rest : List Char} {d : ValidDelimiters} {m : Mark} {error : ParseError}
    (divides : m.Divides before rest) (bad : m.cursor.readTag = .error error) :
    Marked before rest d [m] ⟨[], .failed error⟩
  | reads {before rest text line behind : List Char} {d : ValidDelimiters} {g : Segment}
    {m : Mark} {marks : List Mark} {later : Scan}
    (step : (Cursor.between before rest d).step = .ok (g, .between (m.before ++ (text ++ line))
      behind (g.tag.directive.delimitersAfter d)))
    (front : m.before = before ++ g.lead.toList) (divides : m.Divides before rest)
    (stands : g.Stands m text line behind)
    (further : Marked (m.before ++ (text ++ line)) behind
      (g.tag.directive.delimitersAfter d) marks later) :
    Marked before rest d (m :: marks) ⟨g :: later.segments, later.ending⟩

namespace Scan

theorem marked_between (before rest : List Char) (d : ValidDelimiters) :
    Marked before rest d (marksFrom before rest d) (Cursor.between before rest d).scan := by
  cases read : (Cursor.between before rest d).step with
  | error ending =>
    rw [Cursor.scan_of_error read]
    rw [Cursor.step_eq] at read
    split at read
    · rename_i none
      obtain rfl := Except.error.inj read
      have none : Text.occurrence? d.val.opening.toList rest = .none := none
      rw [marksFrom_of_none none]
      exact .ends
    · rename_i n found
      rw [Cursor.skip_between] at read
      split at read
      · rename_i bad
        obtain rfl := Except.error.inj read
        have found : Text.occurrence? d.val.opening.toList rest = some n := found
        rw [marksFrom_of_error found bad]
        exact .fails (divides_of_occurrence before found) bad
      · cases read
  | ok p =>
    obtain ⟨g, next⟩ := p
    have shorter := Cursor.length_rest_of_step read
    obtain ⟨m, text, line, behind, front, divides, stands, rfl, marked⟩ :=
      Cursor.stands_of_step read
    rw [Cursor.scan_of_ok read, marked]
    exact .reads read front divides stands (marked_between _ _ _)
termination_by rest.length

theorem marked (source : String) (d : ValidDelimiters) :
    Marked [] source.toList d (marks source d) (scan source d) := marked_between _ _ _

namespace Marked
variable {before rest : List Char} {d : ValidDelimiters} {ms : List Mark} {s : Scan}

theorem divides (h : Marked before rest d ms s) {m : Mark} (mem : m ∈ ms) :
    m.Divides before rest := by
  induction h with
  | ends => cases mem
  | fails divides =>
    obtain rfl := List.mem_singleton.1 mem
    exact divides
  | reads _ _ here stands _ ih =>
    rcases List.mem_cons.1 mem with rfl | later
    · exact here
    · obtain ⟨front, whole, opens⟩ := ih later
      refine ⟨here.front.trans ((List.prefix_append _ _).trans front), ?_, opens⟩
      rw [whole, ← here.whole, stands.reads.rest]
      simp only [List.append_assoc]

/-- Every tag that is read opens at a mark. -/
theorem exists_stands (h : Marked before rest d ms s) {g : Segment} (mem : g ∈ s.segments) :
    ∃ m ∈ ms, ∃ text line behind, g.Stands m text line behind := by
  induction h with
  | ends | fails => cases mem
  | reads _ _ _ stands _ ih =>
    rcases List.mem_cons.1 mem with rfl | later
    · exact ⟨_, List.mem_cons_self, _, _, _, stands⟩
    · obtain ⟨m, mem, found⟩ := ih later
      exact ⟨m, List.mem_cons_of_mem _ mem, found⟩

/-- A tag that cannot be read opens at a mark. -/
theorem exists_failed (h : Marked before rest d ms s) {error : ParseError}
    (failed : s.ending = .failed error) : ∃ m ∈ ms, m.cursor.readTag = .error error := by
  induction h with
  | ends => cases failed
  | fails _ bad =>
    obtain rfl := Ending.failed.inj failed
    exact ⟨_, List.mem_singleton_self _, bad⟩
  | reads _ _ _ _ _ ih =>
    obtain ⟨m, mem, bad⟩ := ih failed
    exact ⟨m, List.mem_cons_of_mem _ mem, bad⟩

/-- Where the end of the source is reached, every tag has been read. -/
theorem reads_of_finished (h : Marked before rest d ms s) {last : String} {place : Position}
    {e : Delimiters} (finished : s.ending = .finished last place e) {m : Mark} (mem : m ∈ ms) :
    ∃ directive text after, m.Reads directive text after := by
  induction h with
  | ends => cases mem
  | fails => cases finished
  | reads _ _ _ stands _ ih =>
    rcases List.mem_cons.1 mem with rfl | later
    · exact ⟨_, _, _, stands.reads⟩
    · exact ih finished later

end Marked

end Scan

end Mustache
