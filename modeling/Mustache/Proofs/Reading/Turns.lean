import Mustache.Proofs.Reading.Append
import Mustache.Proofs.Reading.Offsets

/-! One iteration of a reader: it passes what a step of a cursor passes, and does what the tag that
the step has read asks for. Where the step fails, the reader has gone forward all the same. -/
namespace Mustache

/-- What a tag of a given kind says by what it holds. -/
def Sigil.directive (sigil : Sigil) (content : String) : Except ParseErrorKind Directive :=
  match sigil with
  | escaped => .ok (.interpolation content true)
  | raw => .ok (.interpolation content false)
  | opening opener => .ok (.opening opener content)
  | closing => .ok (.closing content)
  | inclusion => .ok (.inclusion content)
  | comment => .ok .comment
  | delimiters =>
    match Delimiters.ofWords? content.toList with
    | some d => .ok (.delimiters d)
    | none => .error (.invalidDelimiters content)

theorem Directive.ofContent_eq (sigil : Sigil) (text : List Char) :
    ofContent sigil text = sigil.content text >>= sigil.directive := by
  have named (f : String → Directive) :
      (checkName text).map f = checkName text >>= fun name => .ok (f name) := by
    cases checkName text <;> rfl
  cases sigil with
  | comment => rfl
  | delimiters =>
    unfold ofContent checkDelimiters Sigil.content
    dsimp only
    split
    · rw [if_pos ‹_›]
      change _ = Sigil.directive .delimiters _
      unfold Sigil.directive
      rw [String.toList_ofList]
      cases Delimiters.ofWords? (Text.trim text.dropLast) <;> rfl
    · rw [if_neg ‹_›]
      rfl
  | escaped | raw | opening | closing | inclusion => exact named _

/-- A tag is refused for how its content is written, or for what it holds. -/
theorem Directive.ofContent_failed {sigil : Sigil} {text : List Char} {kind : ParseErrorKind}
    (h : ofContent sigil text = .error kind) : sigil.content text = .error kind ∨
      ∃ content, sigil.content text = .ok content ∧ sigil.directive content = .error kind := by
  rw [ofContent_eq] at h
  cases held : sigil.content text with
  | error kind' =>
    rw [held] at h
    exact .inl (congrArg Except.error (Except.error.inj h))
  | ok content =>
    rw [held] at h
    exact .inr ⟨content, rfl, h⟩

theorem Sigil.canStandAlone_directive {sigil : Sigil} {content : String} {directive : Directive}
    (h : sigil.directive content = .ok directive) :
    sigil.canStandAlone = directive.canStandAlone := by
  cases sigil with
  | delimiters =>
    unfold Sigil.directive at h
    dsimp only at h
    split at h
    · obtain rfl := Except.ok.inj h
      rfl
    · cases h
  | escaped | raw | opening | closing | inclusion | comment =>
    obtain rfl := Except.ok.inj h
    rfl

/-- Words are not empty and hold no white space, so it is enough to look for equals signs. -/
theorem Delimiters.ofContent?_eq (content : String) :
    ofContent? content = (ofWords? content.toList).map Subtype.val := by
  have word {w : List Char} (mem : w ∈ Text.words content.toList) :
      usable (String.ofList w) = !w.contains '=' := by
    have visible := Text.words_all mem
    have some := Text.ne_nil_of_mem_words mem
    rw [Bool.eq_iff_iff]
    simp only [usable, String.toList_ofList, Bool.and_eq_true, Bool.not_eq_true',
      List.isEmpty_eq_false_iff, ne_eq, some, not_false_eq_true, true_and, List.all_eq_true,
      bne_iff_ne, List.contains_eq_mem, decide_eq_false_iff_not]
    exact ⟨fun h mem => (h _ mem).2 rfl, fun h c mem => ⟨visible c mem, fun e => h (e ▸ mem)⟩⟩
  unfold ofContent? ofWords?
  generalize Text.words content.toList = words at word
  rcases words with _ | ⟨opening, _ | ⟨closing, _ | ⟨third, rest⟩⟩⟩
  · rfl
  · rfl
  · have first := word (w := opening) (by simp)
    have second := word (w := closing) (by simp)
    have valid : Valid ⟨String.ofList opening, String.ofList closing⟩ ↔
        ¬ (opening.contains '=' || closing.contains '=') = true := by
      simp only [Valid, first, second, Bool.not_eq_true', Bool.or_eq_true, not_or,
        Bool.not_eq_true]
    dsimp only
    by_cases equals : (opening.contains '=' || closing.contains '=') = true
    · rw [if_pos equals, dif_neg fun v => valid.1 v equals]
      rfl
    · rw [if_neg equals, dif_pos (valid.2 equals)]
      rfl
  · rfl

namespace Reader
variable {source : String} {d : ValidDelimiters} {before : List Char} {c start after : Cursor}
  {opened : Option String} {nodes : List Node}

/-- Acting on a tag of the flat reading. -/
def Turn.ofTag (opened : Option String) (nodes : List Node) (tag : Tag) : Except ParseError Turn :=
  match tag.directive with
  | .interpolation name escaped => .ok (.goOn (.interpolation name escaped :: nodes))
  | .inclusion name => .ok (.goOn (.inclusion ⟨name, tag.indent, none⟩ :: nodes))
  | .comment => .ok (.goOn nodes)
  | .delimiters _ => .ok (.goOn nodes)
  | .opening opener name => .ok (.inside ⟨opener, name, tag.stop.offset, tag.delimiters, nodes⟩)
  | .closing name =>
    match opened with
    | none => .error (.at tag.start (.strayClosing name))
    | some innermost =>
      if innermost = name then .ok (.done nodes.reverse tag.bodyStop)
      else .error (.at tag.start (.mismatchedClosing innermost name))

/-- Only a tag that closes the level returns its nodes. -/
theorem Turn.opened_of_done {tag : Tag} {nodes' : List Node} {bodyStop : Nat}
    (h : ofTag opened nodes tag = .ok (.done nodes' bodyStop)) : opened ≠ none := by
  rintro rfl
  unfold ofTag at h
  cases kind : tag.directive <;> rw [kind] at h <;> cases h

/-- How a step ends, in which state. -/
def ended {S α : Type} (result : Except ParseError α) (s : S) : EStateM.Result ParseError S α :=
  match result with
  | .ok a => .ok a s
  | .error error => .error error s

/-- Acting on what a tag holds is acting on what it says. -/
theorem act_eq (h : (Cursor.ofSource source d).Passes before start) {content : String}
    (tag : Tag) {sigil : Sigil} (meaning : sigil.directive content = .ok tag.directive)
    (place : tag.start = start.place) (stop : tag.stop = after.place)
    (inForce : tag.delimiters = after.delimiters.val) :
    act source.toList opened nodes start.place.offset tag.bodyStop tag.indent sigil content
        (ofCursor after) =
      ended (Turn.ofTag opened nodes tag)
        (ofCursor { after with delimiters := tag.directive.delimitersAfter after.delimiters }) := by
  unfold act Turn.ofTag
  cases sigil with
  | escaped | raw | inclusion | comment =>
    rw [← Except.ok.inj meaning]
    rfl
  | opening opener =>
    rw [← Except.ok.inj meaning, stop, inForce]
    rfl
  | delimiters =>
    dsimp only [Sigil.directive] at meaning
    dsimp only
    rw [Delimiters.ofContent?_eq]
    cases words : Delimiters.ofWords? content.toList with
    | none =>
      rw [words] at meaning
      cases meaning
    | some next =>
      rw [words] at meaning
      rw [← Except.ok.inj meaning]
      rfl
  | closing =>
    rw [← Except.ok.inj meaning]
    dsimp only
    rw [errorAt_eq h, place]
    cases opened with
    | none => rfl
    | some name =>
      dsimp only
      split
      · rfl
      · rw [errorAt_eq h]
        rfl

/-- Delimiters that are refused are refused where the tag starts. -/
theorem act_failed (h : (Cursor.ofSource source d).Passes before start) {content indent : String}
    {sigil : Sigil} {kind : ParseErrorKind} (refused : sigil.directive content = .error kind)
    {bodyStop : Nat} {m : Reader} :
    act source.toList opened nodes start.place.offset bodyStop indent sigil content m =
      ended (.error (.at start.place kind)) m := by
  cases sigil with
  | delimiters =>
    dsimp only [Sigil.directive] at refused
    dsimp only [act]
    rw [Delimiters.ofContent?_eq]
    cases words : Delimiters.ofWords? content.toList with
    | none =>
      rw [words] at refused
      obtain rfl := Except.error.inj refused
      simp only [Option.map_none, errorAt_eq h]
      rfl
    | some next =>
      rw [words] at refused
      cases refused
  | escaped | raw | opening | closing | inclusion | comment => cases refused

/-- The text between the start of the line and a place on it. -/
theorem slice_line (h : (Cursor.ofSource source d).Passes before start) :
    Text.slice? (ofCursor start).lineStart start.place.offset source.toList =
        some start.margin.reverse ∧
      (ofCursor start).lineStart =
        start.place.offset - Text.byteLength start.margin.reverse := by
  obtain ⟨front, split, -, -, column⟩ := h.line
  have offset : start.place.offset =
      Text.byteLength front + Text.byteLength start.margin.reverse := by
    rw [h.offset, split, Text.byteLength_append]
  have lineStart : (ofCursor start).lineStart = Text.byteLength front := by
    change start.place.offset + 1 - start.place.column = _
    omega
  refine ⟨?_, by omega⟩
  rw [lineStart, offset, h.whole]
  have parts := Text.slice?_append front start.margin.reverse start.rest
  rwa [← split] at parts

/-- The line of a tag goes with it where the cursor takes it along. -/
theorem settle_eq (h : (Cursor.ofSource source d).Passes before start) {behind : List Char}
    (h' : (Cursor.ofSource source d).Passes behind after) (sigil : Sigil) (content : String) :
    settle source.toList opened nodes (ofCursor start).lineStart start.place.offset sigil content
        (ofCursor after) =
      let line := if sigil.canStandAlone && start.margin.all Text.isBlank
        then Cursor.lineEnd? after.rest else none
      let indent := if line.isSome then String.ofList start.margin.reverse else ""
      act source.toList opened (Node.trimIndent indent nodes) start.place.offset
        (start.place.offset - Text.byteLength indent.toList) indent sigil content
        (ofCursor (after.skip (line.getD 0))) := by
  obtain ⟨front, lineStart⟩ := slice_line h
  have line : (if sigil.canStandAlone then (ofCursor after).lineStop? source.toList
        (ofCursor start).lineStart start.place.offset else none) =
      (if sigil.canStandAlone && start.margin.all Text.isBlank
        then Cursor.lineEnd? after.rest else none).map (after.place.offset + ·) := by
    simp only [lineStop?, front, rest_eq h', List.all_reverse]
    cases sigil.canStandAlone <;> cases start.margin.all Text.isBlank <;> rfl
  unfold settle
  rw [line]
  cases stop : if sigil.canStandAlone && start.margin.all Text.isBlank
    then Cursor.lineEnd? after.rest else none with
  | none => rfl
  | some n =>
    have ends : Cursor.lineEnd? after.rest = some n := by
      split at stop
      · exact stop
      · cases stop
    have passed : after.place.offset + n = (after.skip n).place.offset := by
      rw [Cursor.skip, Position.offset_advance, Text.byteLength_lineEnd ends]
    simp only [Option.map_some, front, Option.getD_some, Option.isSome_some, if_true, passed,
      advanceTo_eq h', String.toList_ofList]
    rw [lineStart]

theorem settle_failed (h : (Cursor.ofSource source d).Passes before start) {behind : List Char}
    (h' : (Cursor.ofSource source d).Passes behind after) {sigil : Sigil} {content : String}
    {kind : ParseErrorKind} (refused : sigil.directive content = .error kind)
    (opened : Option String) (nodes : List Node) :
    ∃ k, settle source.toList opened nodes (ofCursor start).lineStart start.place.offset sigil
      content (ofCursor after) =
        ended (.error (.at start.place kind)) (ofCursor (after.skip k)) :=
  ⟨_, (settle_eq h h' sigil content).trans (act_failed h refused)⟩

section Turn
variable (h : (Cursor.ofSource source d).Passes before c) (opened : Option String)
  (nodes : List Node)
include h

theorem turn_finished {text : String} {place : Position} {last : Delimiters}
    (read : c.step = .error (.finished text place last)) :
    turn source.toList opened nodes (ofCursor c) =
      ended (match opened with
        | none => .ok (.done (Node.pushText text nodes).reverse place.offset)
        | some name =>
          .error (.at place (.endBefore (last.opening ++ "/" ++ name ++ last.closing))))
        (ofCursor (c.skip c.rest.length)) := by
  obtain ⟨none, rfl, rfl, rfl⟩ := Cursor.step_finished read
  have place : (c.skip c.rest.length).place = c.place.advance c.rest := by
    rw [Cursor.skip, List.take_length]
  simp only [turn, delimiters_ofCursor, rest_eq h, none, advanceToEnd_eq h]
  cases opened with
  | none => rw [← place]; rfl
  | some name =>
    simp only [errorHere_eq (h.skip _).placed, place]
    rfl

/-- A tag that cannot be read is passed all the same, or with it all that is left. -/
theorem turn_failed {error : ParseError} (read : c.step = .error (.failed error)) :
    ∃ k, c.rest.take k ≠ [] ∧ turn source.toList opened nodes (ofCursor c) =
      ended (.error error) (ofCursor (c.skip k)) := by
  rw [Cursor.step_eq] at read
  split at read
  · cases read
  rename_i n found
  have opening := c.delimiters.property.opening_length
  have fits := Text.occurrence?_length found
  have some {k : Nat} (moved : 0 < k) : c.rest.take k ≠ [] := by
    rw [← List.length_pos_iff, List.length_take]
    omega
  have start := h.skip n
  simp only [turn, delimiters_ofCursor, rest_eq h, found, advanceBy_eq h,
    readTag_eq start (Text.occurrence?_spec found)]
  rw [Cursor.readTag_eq] at read
  cases inside : Text.occurrence? (c.skip n).sigil.2.2
      ((c.skip n).rest.drop (c.skip n).contentStart) with
  | none =>
    rw [inside] at read
    obtain rfl := Ending.failed.inj (Except.error.inj read)
    refine ⟨n + (c.skip n).rest.length, some ?_, ?_⟩
    · rw [Cursor.rest_skip, List.length_drop]
      omega
    · dsimp only
      rw [← Cursor.skip_skip]
      rfl
  | some m =>
    rw [inside] at read
    obtain ⟨width, hw⟩ :
      ∃ width, (c.skip n).contentStart + m + (c.skip n).sigil.2.2.length = width := ⟨_, rfl⟩
    have moved : 0 < n + width := by
      have start : c.delimiters.val.opening.toList.length ≤ (c.skip n).contentStart :=
        Nat.le_add_right _ _
      omega
    obtain ⟨text, ht⟩ :
      ∃ text, ((c.skip n).rest.drop (c.skip n).contentStart).take m = text := ⟨_, rfl⟩
    simp only [ht, hw] at read ⊢
    cases unread : Directive.ofContent (c.skip n).sigil.1 text with
    | ok directive =>
      rw [unread] at read
      cases read
    | error kind =>
      rw [unread] at read
      obtain rfl := Ending.failed.inj (Except.error.inj read)
      rcases Directive.ofContent_failed unread with content | ⟨word, content, meaning⟩
      · refine ⟨n + width, some moved, ?_⟩
        rw [content, ← Cursor.skip_skip]
        rfl
      · rw [content]
        obtain ⟨k, passed⟩ := settle_failed start (start.skip width) meaning opened
          (Node.pushText (String.ofList (c.rest.take n)) nodes)
        refine ⟨n + width + k, some (Nat.add_pos_left moved k), ?_⟩
        dsimp only
        rw [pos_ofCursor, passed, Cursor.skip_skip, Cursor.skip_skip, Nat.add_assoc]

theorem turn_read {segment : Segment} {next : Cursor} (read : c.step = .ok (segment, next)) :
    turn source.toList opened nodes (ofCursor c) =
      ended (Turn.ofTag opened
        (Node.trimIndent segment.tag.indent (Node.pushText segment.lead nodes)) segment.tag)
        (ofCursor next) := by
  obtain ⟨n, directive, after, found, tag, made⟩ := Cursor.step_ok_iff.1 read
  obtain ⟨m, inside, meaning, rfl⟩ := Cursor.readTag_ok_iff.1 tag
  have start := h.skip n
  have behind := start.skip ((c.skip n).contentStart + m + (c.skip n).sigil.2.2.length)
  rw [Directive.ofContent_eq] at meaning
  simp only [turn, delimiters_ofCursor, rest_eq h, found, advanceBy_eq h,
    readTag_eq start (Text.occurrence?_spec found), inside]
  cases content : (c.skip n).sigil.1.content
      (((c.skip n).rest.drop (c.skip n).contentStart).take m) with
  | error kind =>
    rw [content] at meaning
    cases meaning
  | ok content =>
    rw [content] at meaning
    dsimp only
    rw [pos_ofCursor, settle_eq start behind, Sigil.canStandAlone_directive meaning]
    obtain ⟨rfl, rfl⟩ := Prod.mk.inj made
    exact act_eq start (c.through n directive _).1.tag meaning rfl rfl rfl

end Turn

end Reader

end Mustache
