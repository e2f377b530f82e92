import Mustache.Proofs.Reading.Run

/-! Where a section comes from: the tag that opens it, the run through its body, and the tag that
closes it. The run sees nothing of the levels around the section. -/
namespace Mustache

variable {source : String} {d : ValidDelimiters}

/-- An open level was opened by this tag, and its nodes are read from this cursor on. -/
structure Frame.Opened (source : String) (d : ValidDelimiters) (f : Frame) (opening : Tag)
    (first : Cursor) : Prop where
  passed : ∃ text, (Cursor.ofSource source d).Passes text first
  fresh : first.Fresh
  tag : opening ∈ (scan source d).tags
  opens : opening.directive = .opening f.opener f.name
  stop : opening.stop = first.place
  line : opening.alone = true → first.margin = [] ∨ first.rest = []
  bodyStart : f.bodyStart = first.place.offset
  delimiters : f.delimiters = first.delimiters.val

/-- A level from its opening tag to its closing tag. -/
structure Span where
  frame : Frame
  opening : Tag
  first : Cursor
  last : Cursor
  nodes : List Node
  closing : Segment
  after : Cursor

/-- A node that was read over a span. -/
structure Span.Makes (source : String) (d : ValidDelimiters) (span : Span) (n : Node) : Prop where
  opened : span.frame.Opened source d span.opening span.first
  inside : Reaches source (span.first, .empty) (span.last, ⟨[], span.nodes⟩)
  closed : span.last.step = .ok (span.closing, span.after)
  closes : span.closing.tag.directive = .closing span.frame.name
  tag : span.closing.tag ∈ (scan source d).tags
  made : n = span.frame.close source span.closing.tag.bodyStop
    (Assembly.place ⟨[], span.nodes⟩ span.closing).nodes.reverse

/-- A section was read over a span. -/
def Node.Spanned (source : String) (d : ValidDelimiters) : Node → Prop
  | .sect s => ∃ span : Span, span.Makes source d (.sect s)
  | .text _ | .interpolation _ _ | .inclusion _ | .parent _ _ | .block _ => True

namespace Assembly
variable {a b : Assembly} {tag : Tag} {inner inner' outer : List Frame} {nodes nodes' : List Node}

/-- What a tag does within some levels does not depend on the levels around them. -/
theorem adds_inner (h : Adds source ⟨inner ++ outer, nodes⟩ tag ⟨inner' ++ outer, nodes'⟩) :
    Adds source ⟨inner, nodes⟩ tag ⟨inner', nodes'⟩ := by
  generalize after : Assembly.mk (inner' ++ outer) nodes' = b at h
  cases h with
  | interpolation kind =>
    obtain ⟨frames, rfl⟩ := Assembly.mk.inj after
    rw [List.append_cancel_right frames]
    exact .interpolation kind
  | inclusion kind =>
    obtain ⟨frames, rfl⟩ := Assembly.mk.inj after
    rw [List.append_cancel_right frames]
    exact .inclusion kind
  | nothing kind =>
    obtain ⟨frames, rfl⟩ := Assembly.mk.inj after
    rw [List.append_cancel_right frames]
    exact .nothing kind
  | opening kind =>
    obtain ⟨frames, rfl⟩ := Assembly.mk.inj after
    rw [← List.cons_append] at frames
    rw [List.append_cancel_right frames]
    exact .opening kind
  | @closing f rest kind innermost =>
    obtain ⟨frames, rfl⟩ := Assembly.mk.inj after
    rw [← frames, ← List.cons_append] at innermost
    exact .closing kind (List.append_cancel_right innermost)

/-- The levels that are open behind a tag were open in front of it, but for one that it opens. -/
theorem open_of_adds {f : Frame} (h : Adds source a tag b)
    (isOpen : b.frames = inner' ++ f :: outer) :
    (∃ inner, a.frames = inner ++ f :: outer) ∨
      (inner' = [] ∧ b.nodes = [] ∧ ∃ opener name, tag.directive = .opening opener name ∧
        f = ⟨opener, name, tag.stop.offset, tag.delimiters, a.nodes⟩) := by
  cases h with
  | interpolation | inclusion | nothing => exact .inl ⟨inner', isOpen⟩
  | @opening opener name kind =>
    rcases inner' with _ | ⟨g, inner⟩
    · obtain ⟨rfl, -⟩ := List.cons.inj isOpen
      exact .inr ⟨rfl, rfl, opener, name, kind, rfl⟩
    · exact .inl ⟨inner, (List.cons.inj isOpen).2⟩
  | @closing g rest kind innermost =>
    exact .inl ⟨g :: inner', innermost.trans (congrArg (g :: ·) isOpen)⟩

end Assembly

/-- What a run has left behind: each open level has been read from its first cursor on as if there
were no other, and each section was read over a span. -/
structure Traced (source : String) (d : ValidDelimiters) (c : Cursor) (a : Assembly) : Prop where
  passed : ∃ text, (Cursor.ofSource source d).Passes text c
  fresh : c.Fresh
  frames : ∀ inner f outer, a.frames = inner ++ f :: outer → ∃ opening first,
    f.Opened source d opening first ∧ Reaches source (first, .empty) (c, ⟨inner, a.nodes⟩)
  sections : a.Everywhere (Node.Spanned source d)

theorem traced_start (source : String) (d : ValidDelimiters) :
    Traced source d (.ofSource source d) .empty where
  passed := ⟨[], .refl _⟩
  fresh := Cursor.fresh_ofSource source d
  frames inner f outer h := by
    cases inner <;> cases h
  sections := Assembly.everywhere_empty

theorem makes_spanned : Assembly.Makes (fun _ => True) (Node.Spanned source d) where
  text _ := trivial
  interpolation _ _ := trivial
  inclusion _ _ _ := trivial

theorem spanned_of_makes (span : Span) {n : Node} (h : span.Makes source d n) :
    n.Spanned source d := by
  cases n with
  | sect s => exact ⟨span, h⟩
  | _ => trivial

variable {c next : Cursor} {a b : Assembly} {segment : Segment}

theorem opened_step (h : Traced source d c a) (tag : segment.tag ∈ (scan source d).tags)
    (read : c.step = .ok (segment, next)) {opener : Opener} {name : String}
    (kind : segment.tag.directive = .opening opener name) (before : List Node) :
    Frame.Opened source d
      ⟨opener, name, segment.tag.stop.offset, segment.tag.delimiters, before⟩ segment.tag next where
  passed := by
    obtain ⟨text, passed⟩ := h.passed
    obtain ⟨more, -, further⟩ := Cursor.passes_step read
    exact ⟨_, passed.trans further⟩
  fresh := Cursor.fresh_step read
  tag := tag
  opens := kind
  stop := (Cursor.stop_step read).1
  line := Cursor.margin_step read
  bodyStart := congrArg Position.offset (Cursor.stop_step read).1
  delimiters := by
    rw [(Cursor.stop_step read).2, Cursor.delimiters_step read, kind]
    rfl

theorem traced_step (h : Traced source d c a) (tag : segment.tag ∈ (scan source d).tags)
    (read : c.step = .ok (segment, next)) (added : a.add source segment = .ok b) :
    Traced source d next b where
  passed := by
    obtain ⟨text, passed⟩ := h.passed
    obtain ⟨more, -, further⟩ := Cursor.passes_step read
    exact ⟨_, passed.trans further⟩
  fresh := Cursor.fresh_step read
  frames inner' f outer isOpen := by
    have adds := Assembly.addTag_ok_iff.1 added
    rcases Assembly.open_of_adds adds isOpen with
      ⟨inner, before⟩ | ⟨rfl, none, opener, name, kind, rfl⟩
    -- a level that was open sees one tag more; one that opens here has read nothing yet
    · obtain ⟨opening, first, opened, run⟩ := h.frames inner f outer before
      refine ⟨opening, first, opened, run.tail ⟨segment, read, Assembly.addTag_ok_iff.2 ?_⟩⟩
      obtain ⟨frames, nodes⟩ := a
      obtain ⟨frames', nodes'⟩ := b
      obtain rfl : frames = inner ++ f :: outer := before
      obtain rfl : frames' = inner' ++ f :: outer := isOpen
      exact Assembly.adds_inner adds
    · refine ⟨segment.tag, next, opened_step h tag read kind _, ?_⟩
      rw [none]
      exact .refl
  sections := by
    refine Assembly.everywhere_add makes_spanned h.sections trivial ?_ added
    intro f outer innermost kind
    obtain ⟨opening, first, opened, run⟩ := h.frames [] f outer innermost
    exact spanned_of_makes ⟨f, opening, first, c, a.nodes, segment, next⟩
      ⟨opened, run, read, kind, tag, rfl⟩

theorem traced_of_reaches {q : Cursor × Assembly}
    (h : Reaches source (.ofSource source d, .empty) q) : Traced source d q.1 q.2 := by
  induction h with
  | refl => exact traced_start source d
  | tail run step ih =>
    obtain ⟨segment, read, added⟩ := step
    exact traced_step ih (mem_tags_of_reaches run read) read added

/-- Every section that is read was read over a span. -/
theorem spanned_of_parse {nodes : List Node} (ok : parseNodes source d = .ok nodes) :
    Node.Everywhere (Node.Spanned source d) nodes := by
  obtain ⟨c, a, text, place, e, run, -, -, rfl⟩ := reaches_of_read ok
  have sections := (traced_of_reaches run).sections
  exact (Assembly.everywhere_pushText makes_spanned sections.nodes text).subset fun n hn =>
    List.mem_reverse.1 hn

theorem Frame.close_eq_sect {f : Frame} {stop : Nat} {children : List Node} {s : Section}
    (h : .sect s = f.close source stop children) :
    f.opener = .sect s.inverted ∧ f.name = s.name ∧
      s.body = ⟨source, f.bodyStart, stop, f.delimiters⟩ ∧ s.children = children := by
  unfold close at h
  split at h
  · rename_i inverted kind
    obtain rfl := Node.sect.inj h
    exact ⟨kind, rfl, rfl, rfl⟩
  · cases h
  · cases h

/-- The body of a section is what its run has passed, and the text that the closing tag leaves. -/
theorem Span.Makes.lies {span : Span} {s : Section} (h : span.Makes source d (.sect s)) :
    ∃ before inside kept behind, (Cursor.ofSource source d).Passes before span.first ∧
      span.first.Passes inside span.last ∧
      span.closing.lead = kept ++ span.closing.tag.indent ∧
      (span.closing.tag.alone = true → kept.toList.foldl Cursor.widen span.last.margin = []) ∧
      span.last.rest = kept.toList ++ behind ∧
      s.body.Lies before (inside ++ kept.toList) behind := by
  obtain ⟨before, passed⟩ := h.opened.passed
  obtain ⟨inside, passed'⟩ := passes_of_reaches h.inside
  obtain ⟨kept, parts, line⟩ :=
    Cursor.lead_step (fresh_of_reaches h.opened.fresh h.inside) h.closed
  obtain ⟨more, -, further⟩ := Cursor.passes_step h.closed
  obtain ⟨-, -, body, -⟩ := Frame.close_eq_sect h.made
  have rest : span.last.rest =
      kept.toList ++ (span.closing.tag.indent.toList ++ (more ++ span.after.rest)) := by
    rw [further.rest, parts, String.toList_append]
    simp only [List.append_assoc]
  have through := span.last.passes_skip kept.toList.length
  rw [rest, List.take_left] at through
  have stop : span.closing.tag.bodyStop = (span.last.skip kept.toList.length).place.offset := by
    rw [Cursor.bodyStop_step h.closed parts, through.place, Position.offset_advance]
  have behind : (span.last.skip kept.toList.length).rest =
      span.closing.tag.indent.toList ++ (more ++ span.after.rest) := by
    rw [Cursor.rest_skip, rest, List.drop_left]
  refine ⟨before, inside, kept, _, passed, passed', parts, line, rest, ?_⟩
  rw [body, h.opened.bodyStart, stop, ← behind]
  exact passed.lies (passed'.trans through) _

/-- The body of every section that is read is a part of the source. -/
theorem lies_of_parse {nodes : List Node} (ok : parseNodes source d = .ok nodes) {s : Section}
    (h : Node.Occurs nodes (.sect s)) :
    s.body.source = source ∧ ∃ before inside behind, s.body.Lies before inside behind := by
  obtain ⟨span, made⟩ := spanned_of_parse ok _ h
  obtain ⟨before, inside, kept, behind, -, -, -, -, -, lies⟩ := made.lies
  obtain ⟨-, -, body, -⟩ := Frame.close_eq_sect made.made
  exact ⟨by rw [body], before, _, behind, lies⟩

end Mustache
