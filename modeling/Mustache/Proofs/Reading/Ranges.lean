import Mustache.Node.Equality
import Mustache.Proofs.Reading.Growth
import Mustache.Proofs.Reading.Marks
import Mustache.Proofs.Reading.Span

/-! Where the bodies of sections lie in their source: one in the other as the sections nest, and
apart and in order where they do not. A body goes from its opening tag to the closing tag, or to
the blanks in front of it if that tag is alone on its line. -/
namespace Mustache

open Node (gather gather_nil gather_append gather_cons mem_gather)

/-- Segments one behind the other from one offset to another: none of them reaches into the text
that the tag of the next one leaves. -/
def Laid : Nat → List Segment → Nat → Prop
  | lo, [], hi => lo ≤ hi
  | lo, g :: rest, hi =>
    lo ≤ g.tag.bodyStop ∧ g.tag.bodyStop < g.tag.stop.offset ∧ Laid g.tag.stop.offset rest hi

theorem laid_append {lo hi : Nat} {segments more : List Segment}
    (h : Laid lo (segments ++ more) hi) : ∃ mid, Laid lo segments mid ∧ Laid mid more hi := by
  induction segments generalizing lo with
  | nil => exact ⟨lo, Nat.le_refl lo, h⟩
  | cons g rest ih =>
    obtain ⟨front, wide, behind⟩ := h
    obtain ⟨mid, first, second⟩ := ih behind
    exact ⟨mid, ⟨front, wide, first⟩, second⟩

theorem Laid.le {lo hi : Nat} {segments : List Segment} (h : Laid lo segments hi) : lo ≤ hi := by
  induction segments generalizing lo with
  | nil => exact h
  | cons g rest ih =>
    obtain ⟨front, wide, behind⟩ := h
    have := ih behind
    omega

theorem Cursor.laid_scan {c : Cursor} (fresh : c.Fresh) :
    Laid c.place.offset c.scan.segments (c.place.offset + Text.byteLength c.rest) := by
  induction c using induction_step with
  | step c ih =>
    cases read : c.step with
    | error ending =>
      rw [scan_of_error read]
      exact Nat.le_add_right _ _
    | ok p =>
      obtain ⟨g, next⟩ := p
      obtain ⟨front, wide, reached⟩ := bounds_step fresh read
      obtain ⟨more, -, passed⟩ := passes_step read
      have later := ih g next read (fresh_step read)
      have bytes : next.place.offset + Text.byteLength next.rest =
          c.place.offset + Text.byteLength c.rest := by
        rw [passed.place, passed.rest, Position.offset_advance, Text.byteLength_append _ next.rest,
          Nat.add_assoc]
      rw [bytes, ← reached] at later
      rw [scan_of_ok read]
      exact ⟨front, wide, later⟩

/-! The sections of a tree -/

/-- The section that a node is. -/
def Node.asSection : Node → List Section
  | .sect s => [s]
  | .text _ | .interpolation _ _ | .inclusion _ | .parent _ _ | .block _ => []

/-- The sections of a tree in document order, each in front of those inside of it. -/
def Node.sections (nodes : List Node) : List Section := gather asSection nodes

theorem Node.mem_sections {nodes : List Node} {s : Section} :
    s ∈ sections nodes ↔ Occurs nodes (.sect s) := by
  rw [sections, mem_gather]
  constructor
  · rintro ⟨n, occurs, mem⟩
    cases n with
    | sect s' => exact List.mem_singleton.1 mem ▸ occurs
    | _ => cases mem
  · exact fun occurs => ⟨_, occurs, List.mem_singleton_self s⟩

@[simp] theorem Node.sections_nil : sections [] = [] := gather_nil

theorem Node.sections_append (a b : List Node) : sections (a ++ b) = sections a ++ sections b :=
  gather_append a b

theorem Node.piecewise_asSection : Piecewise asSection := fun _ _ => rfl

/-- What is kept of a level in the node that is made of it holds sections of this level only. -/
theorem Frame.sections_close (source : String) (f : Frame) (stop : Nat) (children : List Node) :
    (Node.sections (f.close source stop children).parts).Sublist (Node.sections children) := by
  unfold close
  cases f.opener with
  | sect | block => exact .refl _
  | parent =>
    refine Node.gather_sublist ?_
    change ((children.filterMap Node.block?).map Node.block).Sublist children
    induction children with
    | nil => exact .slnil
    | cons n rest ih =>
      cases n with
      | block b => exact ih.cons_cons _
      | _ => exact ih.cons _

/-- Bodies between two offsets, in the order of their sections. Those inside of a section lie in its
body, and the others behind. -/
structure Section.Ordered (lo hi : Nat) (sections : List Section) : Prop where
  bounds : ∀ s ∈ sections, lo ≤ s.body.start ∧ s.body.start ≤ s.body.stop ∧ s.body.stop ≤ hi
  inside : ∀ s ∈ sections, ∀ inner, Node.Occurs s.children (.sect inner) →
    s.body.start ≤ inner.body.start ∧ inner.body.stop ≤ s.body.stop
  apart : sections.Pairwise fun first second =>
    Node.Occurs first.children (.sect second) ∨ first.body.stop < second.body.start

namespace Section.Ordered
variable {lo hi lo' hi' : Nat} {first second : List Section} {s : Section}

theorem nil : Ordered lo hi [] where
  bounds _ mem := nomatch mem
  inside _ mem := nomatch mem
  apart := .nil

theorem sublist (h : Ordered lo hi second) (sub : first.Sublist second) : Ordered lo hi first where
  bounds s mem := h.bounds s (sub.subset mem)
  inside s mem := h.inside s (sub.subset mem)
  apart := h.apart.sublist sub

theorem mono (h : Ordered lo hi first) (le : lo' ≤ lo) (le' : hi ≤ hi') :
    Ordered lo' hi' first where
  bounds s mem := by
    have := h.bounds s mem
    omega
  inside := h.inside
  apart := h.apart

theorem append (h : Ordered lo hi first) (h' : Ordered lo' hi' second) (le : lo ≤ lo')
    (lt : hi < lo') (le' : hi ≤ hi') : Ordered lo hi' (first ++ second) where
  bounds s mem := by
    rcases List.mem_append.1 mem with mem | mem
    · have := h.bounds s mem
      omega
    · have := h'.bounds s mem
      omega
  inside s mem := (List.mem_append.1 mem).elim (h.inside s) (h'.inside s)
  apart := List.pairwise_append.2 ⟨h.apart, h'.apart, fun s mem t mem' => .inr <| by
    have := h.bounds s mem
    have := h'.bounds t mem'
    omega⟩

/-- A section stands in front of those inside of it. -/
theorem cons (le : s.body.start ≤ s.body.stop)
    (h : Ordered s.body.start s.body.stop (Node.sections s.children)) :
    Ordered s.body.start s.body.stop (s :: Node.sections s.children) where
  bounds := List.forall_mem_cons.2 ⟨⟨Nat.le_refl _, le, Nat.le_refl _⟩, h.bounds⟩
  inside := List.forall_mem_cons.2 ⟨fun inner occurs =>
    have := h.bounds inner (Node.mem_sections.2 occurs)
    ⟨this.1, this.2.2⟩, h.inside⟩
  apart := .cons (fun _ mem => .inl (Node.mem_sections.1 mem)) h.apart

end Section.Ordered

/-- A section comes of two tags of these segments. Between them every tag that opens is closed, so
the second one is the closing tag of the first. -/
structure Section.Tagged (source : String) (segments : List Segment) (s : Section)
    (opening closing : Segment) : Prop where
  nest : ∃ front inner behind, segments = front ++ opening :: (inner ++ closing :: behind) ∧
    Balanced (brackets inner)
  opens : opening.tag.directive = .opening (.sect s.inverted) s.name
  closes : closing.tag.directive = .closing s.name
  body : s.body = ⟨source, opening.tag.stop.offset, closing.tag.bodyStop, opening.tag.delimiters⟩

namespace Section.Tagged
variable {source : String} {segments : List Segment} {s : Section} {opening closing : Segment}

theorem within (h : s.Tagged source segments opening closing) (before after : List Segment) :
    s.Tagged source (before ++ segments ++ after) opening closing where
  nest := by
    obtain ⟨front, inner, behind, rfl, balanced⟩ := h.nest
    exact ⟨before ++ front, inner, behind ++ after, by simp, balanced⟩
  opens := h.opens
  closes := h.closes
  body := h.body

theorem mem (h : s.Tagged source segments opening closing) :
    opening ∈ segments ∧ closing ∈ segments := by
  obtain ⟨front, inner, behind, rfl, -⟩ := h.nest
  simp

end Section.Tagged

namespace Grows
variable {source : String} {segments : List Segment} {nodes nodes' : List Node} {lo hi : Nat}

theorem sections_onto {g : Segment} (here : g.Indented) (nodes : List Node) :
    Node.sections (g.onto nodes).reverse = Node.sections nodes.reverse := by
  rw [Node.sections, gather_onto Node.piecewise_asSection here]
  exact List.append_nil _

theorem sections_leaf (tag : Tag) (nodes : List Node) :
    Node.sections (tag.leaf ++ nodes).reverse = Node.sections nodes.reverse :=
  gather_leaf (fun _ _ => rfl) (fun _ => rfl) tag nodes

/-- The node of a level that ends. -/
theorem ordered_close {f : Frame} {stop : Nat} {children : List Node} (le : f.bodyStart ≤ stop)
    (h : Section.Ordered f.bodyStart stop (Node.sections children)) :
    Section.Ordered f.bodyStart stop
      (Node.sections [f.close source stop children]) := by
  have parts := f.sections_close source stop children
  rw [Node.sections, gather_cons, gather_nil, List.append_nil]
  cases made : f.close source stop children with
  | sect s =>
    obtain ⟨-, -, body, same⟩ := Frame.close_eq_sect made.symm
    have start : f.bodyStart = s.body.start := by rw [body]
    have stop : stop = s.body.stop := by rw [body]
    rw [start, stop, ← same] at h
    rw [start, stop] at le ⊢
    exact .cons le h
  | _ =>
    rw [made] at parts
    exact h.sublist parts

/-- A section is the node of a level that ends, or has been in the level. -/
theorem mem_sections_close {f : Frame} {stop : Nat} {children : List Node} {s : Section}
    (mem : s ∈ Node.sections [f.close source stop children]) :
    .sect s = f.close source stop children ∨ s ∈ Node.sections children := by
  rw [Node.mem_sections] at mem
  rcases mem.eq_or_part with here | inner
  · exact .inl here
  · exact .inr ((f.sections_close source stop children).subset (Node.mem_sections.2 inner))

/-- Along segments that lie between two offsets a level grows by sections whose bodies do, and that
are in order. -/
theorem ordered (h : Grows source segments nodes nodes') (laid : Laid lo segments hi) :
    ∃ new, Node.sections nodes'.reverse = Node.sections nodes.reverse ++ new ∧
        Section.Ordered lo hi new := by
  induction h generalizing lo hi with
  | nil => exact ⟨[], (List.append_nil _).symm, .nil⟩
  | leaf here _ _ ih =>
    obtain ⟨front, wide, behind⟩ := laid
    obtain ⟨new, grown, order⟩ := ih behind
    refine ⟨new, ?_, order.mono (by omega) (Nat.le_refl _)⟩
    rw [grown, sections_leaf, sections_onto here]
  | @nest opening closing inner rest opener name nodes children _ here there _ _ _ _ ih ih' =>
    obtain ⟨front, wide, behind⟩ := laid
    obtain ⟨mid, body, front', wide', behind⟩ := laid_append behind
    have le := body.le
    obtain ⟨inside, grown, order⟩ := ih body
    obtain ⟨new, grown', order'⟩ := ih' behind
    rw [List.reverse_nil, Node.sections_nil, List.nil_append] at grown
    have level : Section.Ordered opening.tag.stop.offset closing.tag.bodyStop
        (Node.sections (closing.onto children).reverse) := by
      rw [sections_onto there, grown]
      exact order.mono (Nat.le_refl _) front'
    have close : Section.Ordered opening.tag.stop.offset closing.tag.bodyStop
        (Node.sections [(opening.tag.frame opener name (opening.onto nodes)).close source
          closing.tag.bodyStop (closing.onto children).reverse]) :=
      ordered_close (f := opening.tag.frame opener name _) (Nat.le_trans le front') level
    have upper := behind.le
    refine ⟨_, ?_, (close.append order' (by omega) wide' (by omega)).mono (by omega)
      (Nat.le_refl _)⟩
    rw [grown', List.reverse_cons, Node.sections_append, sections_onto here, List.append_assoc]

/-- A section by which a level grows along some segments comes of their tags. -/
theorem tagged (h : Grows source segments nodes nodes') {s : Section}
    (mem : s ∈ Node.sections nodes'.reverse) : s ∈ Node.sections nodes.reverse ∨
      ∃ opening closing, s.Tagged source segments opening closing := by
  induction h with
  | nil => exact .inl mem
  | @leaf g _ _ _ here _ _ ih =>
    rw [sections_leaf, sections_onto here] at ih
    refine (ih mem).imp_right ?_
    rintro ⟨opening, closing, tagged⟩
    have within := tagged.within [g] []
    rw [List.append_nil] at within
    exact ⟨opening, closing, within⟩
  | @nest opening closing inner rest opener name _ _ _ here there opens inside closes _ ih ih' =>
    rcases ih' mem with old | ⟨opening', closing', tagged⟩
    · rw [List.reverse_cons, Node.sections_append, List.mem_append, sections_onto here] at old
      refine old.imp_right fun new => ?_
      rcases mem_sections_close new with made | inner
      · obtain ⟨kind, same, body, -⟩ := Frame.close_eq_sect made
        obtain rfl : opener = .sect s.inverted := kind
        obtain rfl : name = s.name := same
        exact ⟨opening, closing, ⟨[], _, _, rfl, inside.balanced⟩, opens, closes, body⟩
      · rw [sections_onto there] at inner
        rcases ih inner with none | ⟨opening', closing', tagged⟩
        · rw [List.reverse_nil, Node.sections_nil] at none
          cases none
        · exact ⟨opening', closing', tagged.within [opening] _⟩
    · have behind := tagged.within (opening :: (inner ++ [closing])) []
      simp only [List.append_assoc, List.cons_append, List.nil_append, List.append_nil] at behind
      exact .inr ⟨opening', closing', behind⟩

end Grows

/-! The text around a body -/

/-- Of two texts that a source begins with, the one with no more bytes is the shorter. -/
theorem Text.prefix_of_byteLength_le {a b c : List Char} (ha : a <+: c) (hb : b <+: c)
    (le : byteLength a ≤ byteLength b) : a <+: b := by
  rcases List.prefix_or_prefix_of_prefix ha hb with short | ⟨_ | ⟨ch, more⟩, rfl⟩
  · exact short
  · simp
  · have := ch.utf8Size_pos
    rw [byteLength_append, byteLength_cons] at le
    omega

/-- In front of a tag are the blanks that go with it, none unless it is alone on its line, and the
body that it closes ends there. -/
theorem Segment.Stands.front {g : Segment} {m : Mark} {text line rest : List Char}
    (h : g.Stands m text line rest) : ∃ front, m.before = front ++ g.tag.indent.toList ∧
      g.tag.bodyStop = Text.byteLength front ∧ g.tag.indent.toList.all Text.isBlank = true ∧
      (g.tag.indent.toList ≠ [] → m.Alone (line ++ rest) g.tag.indent.toList line) := by
  have stop {front : List Char} (split : m.before = front ++ g.tag.indent.toList) :
      g.tag.bodyStop = Text.byteLength front := by
    have start : g.tag.start.offset = 0 + Text.byteLength m.before := by
      rw [h.start]
      exact Position.offset_advance .start m.before
    rw [Tag.bodyStop, start, split, Text.byteLength_append]
    omega
  cases solitary : g.tag.alone with
  | true =>
    obtain ⟨-, alone⟩ := h.alone solitary
    obtain ⟨front, split, -⟩ := alone.front
    exact ⟨front, split, stop split, alone.blank, fun _ => alone⟩
  | false =>
    obtain ⟨none, -⟩ := h.beside solitary
    have split : m.before = m.before ++ g.tag.indent.toList := by
      rw [none, String.toList_empty, List.append_nil]
    refine ⟨m.before, split, stop split, ?_, fun some => absurd ?_ some⟩ <;> rw [none] <;> rfl

/-- A section as it is written in a source: text up to the end of the opening tag and of what goes
with it, the body, the blanks that go with the closing tag, this tag, and the text behind. There
are such blanks only if the closing tag is alone on its line. -/
structure Section.Written (source : String) (d : ValidDelimiters) (s : Section) (m : Mark)
    (before inside blanks tag behind : List Char) : Prop where
  lies : s.body.Lies before inside (blanks ++ (tag ++ behind))
  slice : Text.slice? s.body.start s.body.stop source.toList = some inside
  text : s.body.text = String.ofList inside
  mark : m ∈ marks source d
  front : m.before = before ++ inside ++ blanks
  reads : m.Reads (.closing s.name) tag behind
  spelled : ∃ content, Text.trim content = s.name.toList ∧
    m.Spelled tag behind ['/'] content m.delimiters.val.closing.toList
  blank : blanks.all Text.isBlank = true
  alone : blanks ≠ [] → ∃ trailing, m.Alone behind blanks trailing
  tagged : ∃ opening closing, s.Tagged source (scan source d).segments opening closing ∧
    closing.tag.start = m.cursor.place

variable {source : String} {d : ValidDelimiters}

theorem Section.Tagged.written {s : Section} {opening closing : Segment}
    (h : s.Tagged source (scan source d).segments opening closing)
    (le : s.body.start ≤ s.body.stop) :
    ∃ m before inside blanks tag behind,
      s.Written source d m before inside blanks tag behind := by
  have marked := Scan.marked source d
  obtain ⟨o, mem, text, line, rest, stands⟩ := marked.exists_stands h.mem.1
  obtain ⟨m, mem', tag, line', rest', stands'⟩ := marked.exists_stands h.mem.2
  obtain ⟨front, split, stop, blank, alone⟩ := stands'.front
  have first : o.before ++ (text ++ line) <+: source.toList := by
    refine ⟨rest, ?_⟩
    have whole := (marked.divides mem).whole
    rw [stands.reads.rest] at whole
    simpa using whole
  have second : source.toList =
      front ++ (closing.tag.indent.toList ++ (tag ++ (line' ++ rest'))) := by
    have whole := (marked.divides mem').whole
    rw [stands'.reads.rest, split] at whole
    simpa using whole.symm
  have start : s.body.start = Text.byteLength (o.before ++ (text ++ line)) := by
    rw [h.body, stands.stop]
    exact (Position.offset_advance .start _).trans (Nat.zero_add _)
  have stop : s.body.stop = Text.byteLength front := by
    rw [h.body]
    exact stop
  rw [start, stop] at le
  obtain ⟨inside, rfl⟩ := Text.prefix_of_byteLength_le first ⟨_, second.symm⟩ le
  have lies : s.body.Lies (o.before ++ (text ++ line)) inside
      (closing.tag.indent.toList ++ (tag ++ (line' ++ rest'))) := by
    refine ⟨?_, start, stop.trans (Text.byteLength_append _ _)⟩
    rw [h.body]
    exact second
  have reads := stands'.reads
  rw [h.closes] at reads
  have slice : Text.slice? s.body.start s.body.stop source.toList = some inside := by
    rw [second, lies.start, lies.stop, Text.slice?_append]
  exact ⟨m, _, inside, _, tag, line' ++ rest', lies, slice, lies.text, mem', split, reads,
    reads.spelled_closing (marked.divides mem').opens, blank, fun some => ⟨line', alone some⟩,
    opening, closing, h, stands'.start⟩

/-- In a source that is read, the body of every section is a part of the source that ends at the
blanks in front of its closing tag, or at the tag. A section inside of another one has its body
there, and of two others the first one in the tree ends in front of the second. -/
theorem Template.parseWith_sections {t : Template} (ok : Template.parseWith d.val source = .ok t) :
    (∀ s, Node.Occurs t.nodes (.sect s) → ∃ m before inside blanks tag behind,
      s.Written source d m before inside blanks tag behind) ∧
    (∀ outer, Node.Occurs t.nodes (.sect outer) → ∀ inner,
      Node.Occurs outer.children (.sect inner) →
        outer.body.start ≤ inner.body.start ∧ inner.body.stop ≤ outer.body.stop) ∧
    (Node.sections t.nodes).Pairwise fun first second =>
      Node.Occurs first.children (.sect second) ∨ first.body.stop < second.body.start := by
  obtain ⟨_, read⟩ := Template.nodes_of_parseWith ok
  obtain ⟨level, text, place, last, -, grows, nodes⟩ := grows_of_parse read
  have fresh := Cursor.fresh_ofSource source d
  have same : Node.sections t.nodes = Node.sections level.reverse := by
    rw [nodes, Node.sections, gather_pushText Node.piecewise_asSection]
    exact List.append_nil _
  obtain ⟨new, grown, order⟩ := grows.ordered (Cursor.laid_scan fresh)
  rw [← same, List.reverse_nil, Node.sections_nil, List.nil_append] at grown
  have order : Section.Ordered _ _ (Node.sections t.nodes) := grown.symm ▸ order
  refine ⟨fun s occurs => ?_, fun outer occurs => order.inside outer (Node.mem_sections.2 occurs),
    order.apart⟩
  have mem := Node.mem_sections.2 occurs
  have le := (order.bounds s mem).2.1
  rw [same] at mem
  rcases grows.tagged mem with none | ⟨opening, closing, tagged⟩
  · rw [List.reverse_nil, Node.sections_nil] at none
    cases none
  · exact tagged.written le

/-- A section with two others in it, in front of one inside of an override: bodies that end at a tag
on the same line, at a line end and at an indent. -/
def programme : String :=
  "\x7b\x7b#team\x7d\x7d\n  \x7b\x7b^lead\x7d\x7dné\x7b\x7b/lead\x7d\x7d\n" ++
    "  \x7b\x7b#lead\x7d\x7d\n\t\x7b\x7bname\x7d\x7d\n  \x7b\x7b/ lead \x7d\x7d\n" ++
    "\x7b\x7b/team\x7d\x7d\n\x7b\x7b<page\x7d\x7d\x7b\x7b$main\x7d\x7d" ++
    "\x7b\x7b#end\x7d\x7dx\x7b\x7b/end\x7d\x7d\x7b\x7b/main\x7d\x7d\x7b\x7b/page\x7d\x7d"

theorem parseWith_programme :
    ∃ t, Template.parseWith .standard programme = .ok t ∧
      (Node.sections t.nodes).map (fun s => (s.body.start, s.body.stop)) =
        [(10, 70), (21, 24), (46, 56), (106, 107)] ∧
      (∀ s ∈ Node.sections t.nodes, ∃ m before inside blanks tag behind,
        s.Written programme .standard m before inside blanks tag behind) ∧
      (Node.sections t.nodes).Pairwise fun first second =>
        Node.Occurs first.children (.sect second) ∨ first.body.stop < second.body.start := by
  have read : Template.parseWith .standard programme = .ok ⟨none, programme,
      [.sect ⟨"team", false, ⟨programme, 10, 70, .standard⟩,
        [.text "  ", .sect ⟨"lead", true, ⟨programme, 21, 24, .standard⟩, [.text "né"]⟩, .text "\n",
          .sect ⟨"lead", false, ⟨programme, 46, 56, .standard⟩,
            [.text "\t", .interpolation "name" true, .text "\n"]⟩]⟩,
        .parent ⟨"page", "", none⟩
          [⟨"main", [.sect ⟨"end", false, ⟨programme, 106, 107, .standard⟩, [.text "x"]⟩]⟩]]⟩ := by
    decide +kernel
  obtain ⟨written, -, apart⟩ := Template.parseWith_sections (d := .standard) read
  refine ⟨_, read, ?_, fun s mem => written s (Node.mem_sections.1 mem), apart⟩
  simp [Node.sections, gather_cons, Node.parts, Node.asSection]

end Mustache
