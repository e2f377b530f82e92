import Mustache.Proofs.Reading.Append

/-! A section whose two tags stand alone on their lines has a body of whole lines. Read by itself,
the body gives the children again. -/
namespace Mustache

/-- The tags around the body of a section: the body begins where one ends, and ends where the other
takes its line away or begins. -/
structure Section.Between (source : String) (d : ValidDelimiters) (s : Section)
    (opening closing : Tag) : Prop where
  opening_mem : opening ∈ (scan source d).tags
  start : opening.stop.offset = s.body.start
  closing_mem : closing ∈ (scan source d).tags
  stop : closing.bodyStop = s.body.stop

variable {source : String} {d : ValidDelimiters} {nodes : List Node} {s : Section}
  {opening closing : Tag}

/-- Only one tag opens a section and only one closes it. -/
theorem Section.Between.unique {opening' closing' : Tag} (h : s.Between source d opening closing)
    (h' : s.Between source d opening' closing') : opening = opening' ∧ closing = closing' :=
  ⟨tag_unique h.opening_mem h'.opening_mem (.inl (h.start.trans h'.start.symm)),
    tag_unique h.closing_mem h'.closing_mem (.inr (h.stop.trans h'.stop.symm))⟩

theorem Span.Makes.between {span : Span} (h : span.Makes source d (.sect s)) :
    s.Between source d span.opening span.closing.tag := by
  obtain ⟨-, -, body, -⟩ := Frame.close_eq_sect h.made
  refine ⟨h.opened.tag, ?_, h.tag, by rw [body]⟩
  rw [body, h.opened.bodyStart, h.opened.stop]

/-- Every section that is read has a tag that opens it and one that closes it. -/
theorem between_of_parse (ok : parseNodes source d = .ok nodes)
    (occurs : Node.Occurs nodes (.sect s)) : ∃ opening closing,
      s.Between source d opening closing ∧
        opening.directive = .opening (.sect s.inverted) s.name ∧
        closing.directive = .closing s.name := by
  obtain ⟨span, made⟩ := spanned_of_parse ok _ occurs
  obtain ⟨opener, name, -, -⟩ := Frame.close_eq_sect made.made
  refine ⟨span.opening, span.closing.tag, made.between, ?_, ?_⟩
  · rw [made.opened.opens, opener, name]
  · rw [made.closes, name]

/-- The text that a tag leaves in front of it holds no tag. -/
theorem Cursor.step_kept {c c' next : Cursor} {segment : Segment} {kept : String}
    (h : c.step = .ok (segment, next)) (parts : segment.lead = kept ++ segment.tag.indent)
    (delimiters : c'.delimiters = c.delimiters) (rest : c'.rest = kept.toList) :
    c'.step = .error
      (.finished kept (c'.skip kept.toList.length).place c.delimiters.val) := by
  obtain ⟨n, k, found, -, -, lead, -, -⟩ := skip_step h
  rw [parts, String.toList_append] at lead
  have short := congrArg List.length lead
  rw [List.length_append, List.length_take] at short
  have opening := c.delimiters.property.opening_length
  have none : Text.occurrence? c.delimiters.val.opening.toList kept.toList = none := by
    cases inside : Text.occurrence? c.delimiters.val.opening.toList kept.toList with
    | none => rfl
    | some m =>
      have same := Text.occurrence?_append inside
        (segment.tag.indent.toList ++ c.rest.drop n)
      rw [← List.append_assoc, lead, List.take_append_drop, found] at same
      obtain rfl := Option.some.inj same
      have fits := Text.occurrence?_length inside
      omega
  rw [step_eq, delimiters, rest, none, String.ofList_toList]

/-- A level that is closed where a line begins is read the same when the source ends there. -/
theorem read_of_closed {c last next : Cursor} {segment : Segment} {kept : String}
    {tail : List Char} (fresh : (c.extend tail).Fresh) (line : c.EndsLine)
    (run : Reaches source (c.extend tail, .empty) (last, ⟨[], nodes⟩))
    (closed : last.step = .ok (segment, next)) (parts : segment.lead = kept ++ segment.tag.indent)
    (rest : last.rest = kept.toList ++ tail) :
    c.read source .empty = .ok (Assembly.place ⟨[], nodes⟩ segment).nodes.reverse := by
  have unread : tail.length ≤ last.rest.length := by
    rw [rest, List.length_append]
    omega
  have solid : Node.Solid nodes := solid_of_reaches fresh Assembly.solid_empty run
  obtain ⟨c', rfl, -, within⟩ := reaches_extend run line unread
  have stop : c'.step = .error (.finished kept _ _) :=
    Cursor.step_kept closed parts rfl (List.append_cancel_right rest)
  rw [read_of_reaches within, Cursor.read_of_error stop]
  unfold Assembly.place
  rw [parts, Node.trimIndent_pushText solid]
  rfl

/-- The children of a section with whole lines in its body are what the body is read to. -/
theorem Span.Makes.read {span : Span} (h : span.Makes source d (.sect s))
    (alone : span.opening.alone = true) (alone' : span.closing.tag.alone = true) :
    ∃ again, parseNodes s.body.text span.first.delimiters = .ok again ∧
      s.children = again.map (Node.mapBody (.within source s.body.start)) := by
  obtain ⟨before, inside, kept, behind, passed, passed', parts, line, rest, lies⟩ := h.lies
  obtain ⟨-, -, -, children⟩ := Frame.close_eq_sect h.made
  have margin : span.first.margin = [] := by
    refine (h.opened.line alone).resolve_right fun none => ?_
    have longer := Cursor.length_rest_of_step h.closed
    have empty := congrArg List.length (none.symm.trans passed'.rest)
    rw [List.length_append, List.length_nil] at empty
    omega
  -- the body by itself, where it lies
  let body : Cursor := { span.first with rest := inside ++ kept.toList }
  have first : span.first = body.extend behind := by
    change span.first = { span.first with rest := inside ++ kept.toList ++ behind }
    rw [List.append_assoc, ← rest, ← passed'.rest]
  have ends : body.EndsLine := by
    change (inside ++ kept.toList).foldl Cursor.widen span.first.margin = []
    rw [List.foldl_append, ← passed'.margin, line alone']
  have moved : body = (Cursor.ofSource s.body.text span.first.delimiters).shift
      (Text.byteLength before) (before.count '\n') := by
    have start : before = [] ∨ before.getLast? = some '\n' :=
      (Cursor.foldl_widen_eq_nil.1 (passed.margin.symm.trans margin)).imp_left And.left
    have place : span.first.place =
        Position.start.shift (Text.byteLength before) (before.count '\n') :=
      passed.place.trans (Position.advance_start start)
    simp only [body, margin, place, lies.text, Cursor.ofSource, Cursor.shift, String.toList_ofList]
  have run := h.inside
  rw [first] at run
  have whole := read_of_closed (first ▸ h.opened.fresh) ends run h.closed parts rest
  rw [← children, moved, Cursor.read_shift, ← lies.start] at whole
  cases read : parseNodes s.body.text span.first.delimiters with
  | error e =>
    rw [read] at whole
    cases whole
  | ok again =>
    rw [read] at whole
    exact ⟨again, rfl, (Except.ok.inj whole).symm⟩

/-- Read by itself, the body of a section with its tags on lines of their own gives the children:
only the bodies in them lie elsewhere, and they keep their text. -/
theorem parseWith_body (ok : parseNodes source d = .ok nodes)
    (occurs : Node.Occurs nodes (.sect s)) (tags : s.Between source d opening closing)
    (alone : opening.alone = true) (alone' : closing.alone = true) :
    ∃ again, Template.parseWith s.body.delimiters s.body.text = .ok ⟨none, s.body.text, again⟩ ∧
      s.children = again.map (Node.mapBody (.within source s.body.start)) ∧
      ∀ t, Node.Occurs again (.sect t) → t.body.source = s.body.text ∧
        (t.body.within source s.body.start).text = t.body.text := by
  obtain ⟨span, made⟩ := spanned_of_parse ok _ occurs
  obtain ⟨rfl, rfl⟩ := tags.unique made.between
  obtain ⟨again, read, children⟩ := made.read alone alone'
  obtain ⟨-, -, body, -⟩ := Frame.close_eq_sect made.made
  obtain ⟨before, inside, kept, behind, -, -, -, -, -, lies⟩ := made.lies
  refine ⟨again, ?_, children, fun t inner => ?_⟩
  · have same : s.body.delimiters = span.first.delimiters.val := by
      rw [body, made.opened.delimiters]
    rw [Template.parseWith, same, dif_pos span.first.delimiters.property, read]
    rfl
  · obtain ⟨source', before', inside', behind', lies'⟩ := lies_of_parse read inner
    have around : source.toList = before ++ t.body.source.toList ++ behind := by
      have whole := lies.source
      rw [body] at whole
      rw [source', lies.text, String.toList_ofList, ← whole]
    rw [lies.start]
    exact ⟨source', lies'.text_within around⟩

end Mustache
