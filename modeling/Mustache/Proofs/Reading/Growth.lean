import Mustache.Proofs.Preorder
import Mustache.Proofs.Reading.Balance

/-! How a level of nodes grows along segments whose tags nest: a tag that stands for itself adds its
node, and a pair of tags adds one node around the level that has grown between them. What is read
without an error has grown in this way. -/
namespace Mustache

/-- What a segment leaves of the text in front of its tag. -/
def Segment.kept (g : Segment) : List Char :=
  g.lead.toList.take (g.lead.toList.length - g.tag.indent.toList.length)

/-- The indent that a tag takes away stands in front of it. -/
def Segment.Indented (g : Segment) : Prop := g.lead = String.ofList g.kept ++ g.tag.indent

theorem Segment.indented {g : Segment} {kept : String} (parts : g.lead = kept ++ g.tag.indent) :
    g.Indented := by
  have same : g.kept = kept.toList := by
    rw [Segment.kept, parts, String.toList_append, List.length_append, Nat.add_sub_cancel,
      List.take_left]
  rw [Indented, same, String.ofList_toList, parts]

theorem Segment.Indented.toList_lead {g : Segment} (h : g.Indented) :
    g.lead.toList = g.kept ++ g.tag.indent.toList := by
  rw [h, String.toList_append, String.toList_ofList]

theorem Cursor.indented_of_scan {c : Cursor} (fresh : c.Fresh) :
    ∀ g ∈ c.scan.segments, g.Indented := by
  induction c using induction_step with
  | step c ih =>
    cases read : c.step with
    | error ending =>
      rw [scan_of_error read]
      exact fun g mem => nomatch mem
    | ok p =>
      obtain ⟨first, next⟩ := p
      obtain ⟨kept, parts, -⟩ := lead_step fresh read
      rw [scan_of_ok read]
      exact List.forall_mem_cons.2 ⟨Segment.indented parts, ih first next read (fresh_step read)⟩

/-- A level with the text of a segment behind it, less the indent that the tag takes away. -/
def Segment.onto (g : Segment) (nodes : List Node) : List Node :=
  Node.trimIndent g.tag.indent (Node.pushText g.lead nodes)

/-- The node of a tag that neither opens nor closes a level, if it leaves one. -/
def Tag.leaf (tag : Tag) : List Node :=
  match tag.directive with
  | .interpolation name escaped => [.interpolation name escaped]
  | .inclusion name => [.inclusion ⟨name, tag.indent, none⟩]
  | .comment | .delimiters _ | .opening _ _ | .closing _ => []

/-- The level that a tag opens behind these nodes. -/
def Tag.frame (tag : Tag) (opener : Opener) (name : String) (before : List Node) : Frame :=
  ⟨opener, name, tag.stop.offset, tag.delimiters, before⟩

/-- A level, newest node first, in front of some segments and behind them. -/
inductive Grows (source : String) : List Segment → List Node → List Node → Prop
  | nil {nodes : List Node} : Grows source [] nodes nodes
  | leaf {g : Segment} {rest : List Segment} {nodes nodes' : List Node}
    (here : g.Indented) (kind : g.tag.directive.bracket? = none)
    (behind : Grows source rest (g.tag.leaf ++ g.onto nodes) nodes') :
    Grows source (g :: rest) nodes nodes'
  | nest {opening closing : Segment} {inner rest : List Segment} {opener : Opener} {name : String}
    {nodes children nodes' : List Node} (here : opening.Indented) (there : closing.Indented)
    (opens : opening.tag.directive = .opening opener name)
    (inside : Grows source inner [] children)
    (closes : closing.tag.directive = .closing name)
    (behind : Grows source rest
      ((opening.tag.frame opener name (opening.onto nodes)).close source closing.tag.bodyStop
        (closing.onto children).reverse :: opening.onto nodes) nodes') :
    Grows source (opening :: (inner ++ closing :: rest)) nodes nodes'

variable {source : String} {segments more : List Segment} {nodes nodes' nodes'' : List Node}

theorem Grows.append (h : Grows source segments nodes nodes')
    (h' : Grows source more nodes' nodes'') : Grows source (segments ++ more) nodes nodes'' := by
  induction h with
  | nil => exact h'
  | leaf here kind _ ih => exact .leaf here kind (ih h')
  | nest here there opens inside closes _ _ ih =>
    rw [List.cons_append, List.append_assoc, List.cons_append]
    exact .nest here there opens inside closes (ih h')

/-- The tags of the segments nest. -/
theorem Grows.balanced (h : Grows source segments nodes nodes') : Balanced (brackets segments) := by
  induction h with
  | nil => exact .nil
  | leaf _ kind _ ih =>
    rw [brackets, List.filterMap_cons, kind]
    exact ih
  | @nest opening closing inner rest _ name _ _ _ _ _ opens _ closes _ inside behind =>
    have word : brackets (opening :: (inner ++ closing :: rest)) =
        .opening name :: brackets inner ++ .closing name :: brackets rest := by
      simp [brackets, opens, closes, Directive.bracket?]
    rw [word]
    exact .nest inside behind

/-- The open levels behind some segments, innermost first, and the nodes of the innermost one: each
has grown from nothing since the tag that opens it. -/
inductive Stacked (source : String) : List Segment → List Frame → List Node → Prop
  | outermost {segments : List Segment} {nodes : List Node}
    (grows : Grows source segments [] nodes) : Stacked source segments [] nodes
  | opened {before inner : List Segment} {opening : Segment} {opener : Opener} {name : String}
    {frames : List Frame} {nodes children : List Node} (outer : Stacked source before frames nodes)
    (here : opening.Indented) (opens : opening.tag.directive = .opening opener name)
    (inside : Grows source inner [] children) :
    Stacked source (before ++ opening :: inner)
      (opening.tag.frame opener name (opening.onto nodes) :: frames) children

namespace Stacked
variable {frames : List Frame} {a b : Assembly} {g : Segment}

theorem append (h : Stacked source segments frames nodes)
    (grows : Grows source more nodes nodes') :
    Stacked source (segments ++ more) frames nodes' := by
  cases h with
  | outermost before => exact .outermost (before.append grows)
  | opened outer here opens inside =>
    rw [List.append_assoc, List.cons_append]
    exact .opened outer here opens (inside.append grows)

/-- A tag that stands for itself grows the innermost level, an opening tag begins a level, and a
closing tag grows the next one by the level that it ends. -/
theorem add (h : Stacked source segments a.frames a.nodes) (there : g.Indented)
    (ok : a.add source g = .ok b) : Stacked source (segments ++ [g]) b.frames b.nodes := by
  have adds : Assembly.Adds source ⟨a.frames, g.onto a.nodes⟩ g.tag b := Assembly.addTag_ok_iff.1 ok
  have leaf (kind : g.tag.directive.bracket? = none) :
      Stacked source (segments ++ [g]) a.frames (g.tag.leaf ++ g.onto a.nodes) :=
    h.append (.leaf there kind .nil)
  unfold Tag.leaf at leaf
  cases adds with
  | interpolation kind =>
    rw [kind] at leaf
    exact leaf rfl
  | inclusion kind =>
    rw [kind] at leaf
    exact leaf rfl
  | nothing kind =>
    rcases kind with kind | ⟨d, kind⟩ <;> rw [kind] at leaf <;> exact leaf rfl
  | opening kind => exact .opened h there kind .nil
  | closing kind innermost =>
    obtain ⟨frames, nodes⟩ := a
    obtain rfl : frames = _ := innermost
    cases h with
    | opened outer here opens inside =>
      rw [List.append_assoc, List.cons_append]
      exact outer.append (.nest here there opens inside kind .nil)

theorem foldlM (h : Stacked source segments a.frames a.nodes) (indents : ∀ g ∈ more, g.Indented)
    (ok : more.foldlM (Assembly.add source) a = .ok b) :
    Stacked source (segments ++ more) b.frames b.nodes := by
  induction more generalizing segments a with
  | nil =>
    obtain rfl := Except.ok.inj ok
    rwa [List.append_nil]
  | cons g rest ih =>
    obtain ⟨here, indents⟩ := List.forall_mem_cons.1 indents
    rw [List.foldlM_cons] at ok
    cases added : a.add source g with
    | error e =>
      rw [added] at ok
      cases ok
    | ok mid =>
      rw [added] at ok
      have grown := ih (h.add here added) indents ok
      rwa [List.append_assoc] at grown

theorem grows (h : Stacked source segments [] nodes) : Grows source segments [] nodes := by
  cases h with
  | outermost grows => exact grows

end Stacked

/-- What is read has grown along all segments, and the last text stands behind it. -/
theorem grows_of_parse {d : ValidDelimiters} (ok : parseNodes source d = .ok nodes) :
    ∃ level text place last, (scan source d).ending = .finished text place last ∧
      Grows source (scan source d).segments [] level ∧
      nodes = (Node.pushText text level).reverse := by
  unfold parseNodes Scan.assemble at ok
  cases fold : (scan source d).segments.foldlM (Assembly.add source) .empty with
  | error e =>
    rw [fold] at ok
    cases ok
  | ok a =>
    rw [fold] at ok
    have indents := Cursor.indented_of_scan (Cursor.fresh_ofSource source d)
    have stacked := Stacked.foldlM (.outermost .nil) indents fold
    change a.finish _ = _ at ok
    unfold Assembly.finish at ok
    split at ok
    · cases ok
    · rename_i text place last ending
      obtain ⟨_ | ⟨f, outer⟩, level⟩ := a
      · exact ⟨level, text, place, last, ending, stacked.grows, (Except.ok.inj ok).symm⟩
      · cases ok

/-! What is gathered from a level as it grows -/

section Gathered
open Node (gather gather_append gather_reverse_cons gather_nil pushText pushText_text
  text_or_pushText)
variable {α : Type} {f : Node → List α}

/-- What is found at a text is found piece by piece. -/
def Piecewise (f : Node → List α) : Prop :=
  ∀ first second, f (.text (first ++ second)) = f (.text first) ++ f (.text second)

theorem Piecewise.empty (h : Piecewise f) : f (.text "") = [] := by
  have twice := congrArg List.length (h "" "")
  rw [String.append_empty, List.length_append] at twice
  exact List.eq_nil_of_length_eq_zero (by omega)

theorem gather_text (text : String) (nodes : List Node) :
    gather f (.text text :: nodes).reverse = gather f nodes.reverse ++ f (.text text) := by
  rw [gather_reverse_cons, Node.parts, gather_nil, List.append_nil]

theorem gather_pushText (h : Piecewise f) (text : String) (nodes : List Node) :
    gather f (pushText text nodes).reverse = gather f nodes.reverse ++ f (.text text) := by
  rcases text_or_pushText nodes with ⟨last, rest, rfl⟩ | new
  · rw [pushText_text, gather_text, gather_text, h, List.append_assoc]
  · by_cases empty : text = ""
    · rw [empty, Node.pushText_empty, h.empty, List.append_nil]
    · rw [new text empty, gather_text]

/-- An indent that has been put in place is taken back. -/
theorem gather_trimIndent (h : Piecewise f) (indent : String) (nodes : List Node) :
    gather f (Node.trimIndent indent (pushText indent nodes)).reverse = gather f nodes.reverse := by
  by_cases empty : indent = ""
  · simp [empty, Node.trimIndent]
  · rcases text_or_pushText nodes with ⟨last, rest, rfl⟩ | new
    · rw [pushText_text, Node.trimIndent_text empty]
      split
      · rename_i none
        rw [none, gather_text, h.empty, List.append_nil]
      · rfl
    · have alone := Node.trimIndent_text empty "" nodes
      rw [String.empty_append, if_pos rfl] at alone
      rw [new indent empty, alone]

theorem gather_onto (h : Piecewise f) {g : Segment} (parts : g.Indented) (nodes : List Node) :
    gather f (g.onto nodes).reverse =
      gather f nodes.reverse ++ f (.text (String.ofList g.kept)) := by
  rw [Segment.onto, parts, Node.pushText_append, gather_trimIndent h, gather_pushText h]

/-- Nothing is found at the nodes of tags, unless they nest. -/
theorem gather_leaf (interpolation : ∀ name escaped, f (.interpolation name escaped) = [])
    (inclusion : ∀ i, f (.inclusion i) = []) (tag : Tag) (nodes : List Node) :
    gather f (tag.leaf ++ nodes).reverse = gather f nodes.reverse := by
  unfold Tag.leaf
  split
  · rw [List.singleton_append, gather_reverse_cons, interpolation, Node.parts, gather_nil,
      List.append_nil, List.append_nil]
  · rw [List.singleton_append, gather_reverse_cons, inclusion, Node.parts, gather_nil,
      List.append_nil, List.append_nil]
  all_goals rfl

/-- What has been gathered of a level stays where it is. -/
theorem Grows.gather_prefix (pieces : Piecewise f) (h : Grows source segments nodes nodes') :
    gather f nodes.reverse <+: gather f nodes'.reverse := by
  induction h with
  | nil => exact List.prefix_refl _
  | leaf here _ _ ih =>
    refine .trans ?_ ih
    rw [List.reverse_append, gather_append, gather_onto pieces here, List.append_assoc]
    exact List.prefix_append _ _
  | nest here _ _ _ _ _ _ ih =>
    refine .trans ?_ ih
    rw [gather_reverse_cons, gather_onto pieces here, List.append_assoc]
    exact List.prefix_append _ _

end Gathered

end Mustache
