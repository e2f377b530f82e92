import Mustache.Node.Equality
import Mustache.Proofs.Reading.Growth
import Mustache.Proofs.Reading.Marks

/-! The text that is left of a source when it is read. Growing level by level, a tree without
overrides holds what each segment leaves in front of its tag; and what is left there is the source
without its tags, and without what goes with a tag that is alone on its line. -/
namespace Mustache

/-! The texts of a tree -/

namespace Node

/-- The characters of a text. -/
def chars : Node → List Char
  | .text t => t.toList
  | .interpolation _ _ | .sect _ | .inclusion _ | .parent _ _ | .block _ => []

/-- The texts of a tree in document order. -/
def texts (nodes : List Node) : List Char := gather chars nodes

@[simp] theorem texts_nil : texts [] = [] := gather_nil

theorem piecewise_chars : Piecewise chars := fun _ _ => String.toList_append

/-- The partials with overrides. -/
def parents : Node → List Inclusion
  | .parent i _ => [i]
  | .text _ | .interpolation _ _ | .sect _ | .inclusion _ | .block _ => []

theorem piecewise_parents : Piecewise parents := fun _ _ => rfl

end Node

namespace Grows
open Node (gather gather_reverse_cons)
variable {source : String} {segments : List Segment} {nodes nodes' : List Node}

theorem texts_onto {g : Segment} (here : g.Indented) (nodes : List Node) :
    Node.texts (g.onto nodes).reverse = Node.texts nodes.reverse ++ g.kept := by
  rw [Node.texts, gather_onto Node.piecewise_chars here, Node.chars, String.toList_ofList]
  rfl

theorem texts_leaf (tag : Tag) (nodes : List Node) :
    Node.texts (tag.leaf ++ nodes).reverse = Node.texts nodes.reverse :=
  gather_leaf (fun _ _ => rfl) (fun _ => rfl) tag nodes

/-- A node that is no partial with overrides holds the texts of the level inside. -/
theorem texts_close {frame : Frame} {stop : Nat} {children : List Node}
    (free : Node.parents (frame.close source stop children) = []) (nodes : List Node) :
    (frame.close source stop children).parts = children ∧
    Node.texts (frame.close source stop children :: nodes).reverse =
      Node.texts nodes.reverse ++ Node.texts children := by
  rw [Node.texts, gather_reverse_cons]
  unfold Frame.close at free ⊢
  cases kind : frame.opener with
  | parent =>
    rw [kind] at free
    cases free
  | sect | block => exact ⟨rfl, rfl⟩

/-- A level without overrides grows by the text that the segments leave. -/
theorem texts (h : Grows source segments nodes nodes')
    (free : gather Node.parents nodes'.reverse = []) :
    Node.texts nodes'.reverse = Node.texts nodes.reverse ++ segments.flatMap Segment.kept := by
  induction h with
  | nil => rw [List.flatMap_nil, List.append_nil]
  | leaf here _ _ ih =>
    rw [ih free, texts_leaf, texts_onto here, List.flatMap_cons, List.append_assoc]
  | nest here there _ _ _ behind ih ih' =>
    -- the node that closes is no partial with overrides, and none is inside of it
    have none := behind.gather_prefix Node.piecewise_parents
    rw [free, List.prefix_nil, gather_reverse_cons, List.append_eq_nil_iff,
      List.append_eq_nil_iff] at none
    obtain ⟨-, kind, inside⟩ := none
    obtain ⟨parts, close⟩ := texts_close kind _
    rw [parts, gather_onto Node.piecewise_parents there, List.append_eq_nil_iff] at inside
    rw [ih' free, close, texts_onto here, texts_onto there, ih inside.1]
    simp [List.append_assoc]

end Grows

/-! What goes with the tags -/

namespace Text
variable {taken taken' : Nat → Prop} {start : Nat} {a b : List Char}

open Classical in
/-- The characters of a text at the places that are not taken. Its first place is `start`. -/
noncomputable def untaken (taken : Nat → Prop) : Nat → List Char → List Char
  | _, [] => []
  | start, c :: rest =>
    if taken start then untaken taken (start + 1) rest else c :: untaken taken (start + 1) rest

theorem untaken_append : untaken taken start (a ++ b) =
    untaken taken start a ++ untaken taken (start + a.length) b := by
  induction a generalizing start with
  | nil => rfl
  | cons c rest ih =>
    have next : start + 1 + rest.length = start + (c :: rest).length := by
      rw [List.length_cons]
      omega
    rw [List.cons_append, untaken, untaken, ih, next]
    split <;> rfl

theorem untaken_congr (h : ∀ i, start ≤ i → (taken i ↔ taken' i)) :
    untaken taken start a = untaken taken' start a := by
  induction a generalizing start with
  | nil => rfl
  | cons c rest ih =>
    have later := ih fun i le => h i (Nat.le_of_succ_le le)
    have here := h start (Nat.le_refl _)
    rw [untaken, untaken, later]
    by_cases now : taken start
    · rw [if_pos now, if_pos (here.1 now)]
    · rw [if_neg now, if_neg fun now' => now (here.2 now')]

theorem untaken_eq_self (h : ∀ i, start ≤ i → i < start + a.length → ¬ taken i) :
    untaken taken start a = a := by
  induction a generalizing start with
  | nil => rfl
  | cons c rest ih =>
    rw [List.length_cons] at h
    have later : untaken taken (start + 1) rest = rest :=
      ih fun i le lt => h i (by omega) (by omega)
    rw [untaken, if_neg (h start (Nat.le_refl _) (by omega)), later]

theorem untaken_eq_nil (h : ∀ i, start ≤ i → i < start + a.length → taken i) :
    untaken taken start a = [] := by
  induction a generalizing start with
  | nil => rfl
  | cons c rest ih =>
    rw [List.length_cons] at h
    have later : untaken taken (start + 1) rest = [] :=
      ih fun i le lt => h i (by omega) (by omega)
    rw [untaken, if_pos (h start (Nat.le_refl _) (by omega)), later]

/-- A text out of which a part is cut. -/
theorem untaken_cut {c : List Char} {stop : Nat} (reached : start + (a ++ b).length = stop)
    (left : ∀ i, taken i → i < stop → start + a.length ≤ i)
    (gone : ∀ i, start + a.length ≤ i → i < stop → taken i)
    (later : ∀ i, stop ≤ i → (taken i ↔ taken' i)) :
    untaken taken start (a ++ b ++ c) = a ++ untaken taken' stop c := by
  rw [List.length_append] at reached
  have first : untaken taken start a = a := untaken_eq_self fun i _ lt here => by
    have := left i here (by omega)
    omega
  have second : untaken taken (start + a.length) b = [] :=
    untaken_eq_nil fun i le lt => gone i le (by omega)
  rw [untaken_append, untaken_append, first, second, List.append_nil, List.length_append, reached,
    untaken_congr later]

end Text

/-- A place goes with the tag that opens here. It lies in the text of the tag; or the tag is no
variable, is alone on its line, and the place is among the blanks in front or in what is behind the
tag on its line, the line end included. -/
def Mark.Takes (m : Mark) (i : Nat) : Prop :=
  ∃ directive text after, m.Reads directive text after ∧
    (m.before.length ≤ i ∧ i < m.before.length + text.length ∨
      (∀ name escaped, directive ≠ .interpolation name escaped) ∧
        ∃ leading trailing, m.Alone after leading trailing ∧ m.before.length ≤ i + leading.length ∧
          i < m.before.length + text.length + trailing.length)

/-- A place goes with one of the tags. -/
def Mark.Taken (marks : List Mark) (i : Nat) : Prop := ∃ m ∈ marks, m.Takes i

theorem Mark.taken_cons {m : Mark} {ms : List Mark} {i : Nat} :
    Taken (m :: ms) i ↔ m.Takes i ∨ Taken ms i := by
  simp [Taken]

theorem Directive.canStandAlone_iff {directive : Directive} : directive.canStandAlone = true ↔
    ∀ name escaped, directive ≠ .interpolation name escaped := by
  cases directive <;> simp [canStandAlone]

variable {before rest : List Char} {d : ValidDelimiters} {m : Mark} {i : Nat}

/-- A step takes what goes with the tag that it reads. -/
theorem Segment.Stands.takes_iff {g : Segment} {text line behind : List Char}
    (h : g.Stands m text line behind) : m.Takes i ↔
      m.before.length ≤ i + g.tag.indent.toList.length ∧
        i < m.before.length + (text ++ line).length := by
  rw [List.length_append]
  constructor
  · rintro ⟨directive, text', after, reads, own | ⟨kind, leading, trailing, alone, front, back⟩⟩
    · obtain ⟨rfl, rfl, rfl⟩ := reads.unique h.reads
      omega
    · obtain ⟨rfl, rfl, rfl⟩ := reads.unique h.reads
      obtain ⟨-, rfl, rfl⟩ := h.unique (Directive.canStandAlone_iff.2 kind) alone
      omega
  · rintro ⟨front, back⟩
    refine ⟨_, _, _, h.reads, ?_⟩
    cases solitary : g.tag.alone with
    | true =>
      obtain ⟨kind, alone⟩ := h.alone solitary
      exact .inr ⟨Directive.canStandAlone_iff.1 kind, _, _, alone, front, by omega⟩
    | false =>
      obtain ⟨indent, rfl⟩ := h.beside solitary
      rw [indent] at front
      simp only [String.toList_empty, List.length_nil] at front back
      exact .inl ⟨by omega, by omega⟩

/-- Tags take nothing in front of the place where their reading begins. -/
theorem Mark.Takes.le (h : m.Takes i) (fresh : (Cursor.between before rest d).Fresh)
    (front : before <+: m.before) : before.length ≤ i := by
  have le := front.length_le
  obtain ⟨directive, text, after, -, own | ⟨-, leading, trailing, alone, lead, -⟩⟩ := h
  · omega
  · obtain ⟨first, split, begins⟩ := alone.front
    rw [split] at front lead
    rw [List.length_append] at lead
    rcases List.prefix_or_prefix_of_prefix front (List.prefix_append first leading) with
      short | ⟨more, rfl⟩
    · have := short.length_le
      omega
    -- only blanks are between the line begin and the place, so it is the line begin
    · have blank : more.all Text.isBlank = true := by
        have inside : more <+: leading := (List.prefix_append_right_inj first).1 front
        obtain ⟨tail, rfl⟩ := inside
        exact (Bool.and_eq_true_iff.1 (List.all_append.symm.trans alone.blank)).1
      have margin : (Cursor.between (first ++ more) rest d).margin = more.reverse :=
        Text.foldl_widen_beginsLine begins (Text.newline_not_mem_of_blank blank)
      have none := fresh (by rw [margin, List.all_reverse, blank])
      rw [margin, List.reverse_eq_nil_iff] at none
      rw [none, List.append_nil]
      omega

namespace Scan.Marked
variable {ms : List Mark} {s : Scan}

/-- Tags take nothing in front of the place where their reading begins. -/
theorem le_of_taken (h : Marked before rest d ms s)
    (fresh : (Cursor.between before rest d).Fresh) (taken : Mark.Taken ms i) :
    before.length ≤ i := by
  obtain ⟨m, mem, takes⟩ := taken
  exact takes.le fresh (h.divides mem).front

/-- What the segments leave is what no tag takes. -/
theorem untaken (h : Marked before rest d ms s) (fresh : (Cursor.between before rest d).Fresh)
    {last : String} {place : Position} {e : Delimiters}
    (finished : s.ending = .finished last place e) :
    Text.untaken (Mark.Taken ms) before.length rest =
      s.segments.flatMap Segment.kept ++ last.toList := by
  induction h with
  | ends =>
    obtain ⟨rfl, -, -⟩ := Ending.finished.inj finished
    rw [Text.untaken_eq_self fun i _ _ ⟨m, mem, _⟩ => nomatch mem]
    exact String.toList_ofList.symm
  | fails => cases finished
  | @reads before rest text line behind d g m ms later step front divides stands further ih =>
    obtain ⟨kept, parts, -⟩ := Cursor.lead_step fresh step
    have next := Cursor.fresh_step step
    have lead := (Segment.indented parts).toList_lead
    have split : rest = g.kept ++ (g.tag.indent.toList ++ (text ++ line)) ++ behind := by
      have whole := divides.whole
      rw [front, lead, stands.reads.rest, List.append_assoc] at whole
      rw [← List.append_cancel_left whole]
      simp only [List.append_assoc]
    have reached : before.length + (g.kept ++ (g.tag.indent.toList ++ (text ++ line))).length =
        (m.before ++ (text ++ line)).length := by
      rw [front, lead]
      simp only [List.length_append, Nat.add_assoc]
    have takes (i : Nat) : m.Takes i ↔ before.length + g.kept.length ≤ i ∧
        i < (m.before ++ (text ++ line)).length := by
      rw [stands.takes_iff, ← List.length_append, front, lead]
      simp only [List.length_append]
      omega
    rw [split, Text.untaken_cut reached, ih next finished, List.flatMap_cons, List.append_assoc]
    · intro i taken lt
      rcases Mark.taken_cons.1 taken with here | there
      · exact ((takes i).1 here).1
      · exact absurd (further.le_of_taken next there) (Nat.not_le.2 lt)
    · exact fun i le lt => Mark.taken_cons.2 (.inl ((takes i).2 ⟨le, lt⟩))
    · intro i le
      rw [Mark.taken_cons, takes]
      exact or_iff_right fun here => absurd here.2 (Nat.not_lt.2 le)

end Scan.Marked

/-- Every tag of a source that is read goes from the open delimiter in force there to the close
delimiter that first follows. If no partial with overrides is read, the texts of the tree in
document order are the source without what goes with its tags: nothing is lost, nothing is there
twice, and nothing is moved. -/
theorem Template.parseWith_texts {source : String} {t : Template}
    (ok : Template.parseWith d.val source = .ok t)
    (free : ∀ i overrides, ¬ Node.Occurs t.nodes (.parent i overrides)) :
    (∀ m ∈ marks source d, ∃ directive text after, m.Reads directive text after ∧
      m.before ++ text ++ after = source.toList ∧
      ∃ kind content close, m.Spelled text after kind content close) ∧
    Node.texts t.nodes = Text.untaken (Mark.Taken (marks source d)) 0 source.toList := by
  obtain ⟨_, read⟩ := Template.nodes_of_parseWith ok
  obtain ⟨level, text, place, last, ending, grows, nodes⟩ := grows_of_parse read
  have marked := Scan.marked source d
  constructor
  · intro m mem
    obtain ⟨directive, text, after, reads⟩ := marked.reads_of_finished ending mem
    obtain ⟨-, whole, opens⟩ := marked.divides mem
    obtain ⟨content, spelled, -⟩ := reads.spelled opens
    refine ⟨directive, text, after, reads, ?_, _, content, _, spelled⟩
    rw [List.append_assoc, ← reads.rest]
    exact whole
  · have none : Node.gather Node.parents level.reverse = [] := by
      have none : Node.gather Node.parents t.nodes = [] := by
        refine List.eq_nil_iff_forall_not_mem.2 fun i mem => ?_
        obtain ⟨n, occurs, here⟩ := Node.mem_gather.1 mem
        cases n with
        | parent => exact free _ _ occurs
        | _ => cases here
      rw [nodes, gather_pushText Node.piecewise_parents] at none
      exact (List.append_eq_nil_iff.1 none).1
    have left := marked.untaken (Cursor.fresh_ofSource source d) ending
    have texts := grows.texts none
    rw [List.reverse_nil, Node.texts_nil, List.nil_append] at texts
    rw [nodes, Node.texts, gather_pushText Node.piecewise_chars]
    exact (congrArg (· ++ text.toList) texts).trans left.symm

/-- Lines of tags with both line ends, a comment of two lines behind a text, other delimiters, a
variable on a line of its own, and a last line that does not end. -/
def notice : String :=
  "Dear \x7b\x7bname\x7d\x7d,\r\n  \x7b\x7b#team\x7d\x7d\t\r\n* \x7b\x7b!\n\x7d\x7dx\n" ++
    "\x7b\x7b/team\x7d\x7d\n \x7b\x7b=| |=\x7d\x7d\n  |name|\n\t|! end|"

theorem parseWith_notice :
    (∃ t, Template.parseWith .standard notice = .ok t) ∧
      Text.untaken (Mark.Taken (marks notice .standard)) 0 notice.toList =
        "Dear ,\r\n* x\n  \n".toList := by
  have read : Template.parseWith .standard notice = .ok ⟨none, notice, [.text "Dear ",
      .interpolation "name" true, .text ",\r\n",
      .sect ⟨"team", false, ⟨notice, 30, 40, .standard⟩, [.text "* x\n"]⟩,
      .text "  ", .interpolation "name" true, .text "\n"]⟩ := by decide +kernel
  have left := (Template.parseWith_texts (d := .standard) read ?_).2
  · refine ⟨⟨_, read⟩, left.symm.trans ?_⟩
    simp [Node.texts, Node.gather_cons, Node.parts, Node.chars]
  · intro i overrides occurs
    have none := Node.mem_gather (f := Node.parents).2 ⟨_, occurs, List.mem_singleton_self i⟩
    simp [Node.gather_cons, Node.parts, Node.parents] at none

end Mustache
