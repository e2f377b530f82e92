import Mustache.Assembly

/-! The nodes that occur in a tree at any nesting, and what holds of all of them when the tree has
been read from a source. -/
namespace Mustache

namespace Node

/-- The nodes directly inside a node: the children of a section or of a block, and the overrides of
a partial. -/
def parts : Node → List Node
  | .text _ | .interpolation _ _ | .inclusion _ => []
  | .sect s => s.children
  | .parent _ overrides => overrides.map .block
  | .block b => b.children

/-- A section, whose body is rendered depending on a value. -/
def isSection : Node → Bool
  | .sect _ => true
  | .text _ | .interpolation _ _ | .inclusion _ | .parent _ _ | .block _ => false

theorem size_le_of_mem {nodes : List Node} {node : Node} (mem : node ∈ nodes) :
    node.size ≤ sizes nodes := by
  induction nodes with
  | nil => cases mem
  | cons first rest ih =>
    rw [sizes]
    rcases List.mem_cons.1 mem with rfl | mem
    · omega
    · have := ih mem
      omega

theorem sizes_override_lt {scope : List Block} {b : Block} (mem : b ∈ scope) :
    sizes b.children < Block.sizes scope := by
  induction scope with
  | nil => cases mem
  | cons first rest ih =>
    rw [Block.sizes]
    rcases List.mem_cons.1 mem with rfl | mem
    · rw [Block.sizes_children]
      omega
    · have := ih mem
      omega

theorem size_lt_of_mem_parts {n m : Node} (mem : m ∈ n.parts) : m.size < n.size := by
  cases n with
  | text | interpolation | inclusion => cases mem
  | sect s =>
    have : m.size ≤ sizes s.children := size_le_of_mem mem
    rw [size, ← Section.sizes_children]
    omega
  | block b =>
    have : m.size ≤ sizes b.children := size_le_of_mem mem
    rw [size, ← Block.sizes_children]
    omega
  | parent i overrides =>
    obtain ⟨b, hb, rfl⟩ := List.mem_map.1 mem
    have := sizes_override_lt hb
    rw [size, size, ← Block.sizes_children]
    omega

/-- Induction on the nesting: what holds of a node when it holds of its parts holds of all. -/
theorem induction_parts {p : Node → Prop} (step : ∀ n : Node, (∀ m ∈ n.parts, p m) → p n)
    (n : Node) : p n :=
  step n fun m _ => induction_parts step m
termination_by n.size
decreasing_by exact size_lt_of_mem_parts ‹_›

/-- A node occurs in a tree, at any nesting. -/
inductive Occurs (top : List Node) : Node → Prop
  | top {n : Node} (mem : n ∈ top) : Occurs top n
  | part {n m : Node} (outer : Occurs top n) (mem : m ∈ n.parts) : Occurs top m

variable {top nodes : List Node} {n m : Node}

theorem Occurs.trans (h : ∀ n ∈ nodes, Occurs top n) (inner : Occurs nodes m) : Occurs top m := by
  induction inner with
  | top mem => exact h _ mem
  | part _ mem ih => exact .part ih mem

theorem Occurs.mono (h : nodes ⊆ top) (inner : Occurs nodes m) : Occurs top m :=
  inner.trans fun _ mem => .top (h mem)

theorem Occurs.of_mem (mem : n ∈ top) (inner : Occurs [n] m) : Occurs top m :=
  inner.trans fun _ hn => .top (List.mem_singleton.1 hn ▸ mem)

theorem Occurs.of_parts (inner : Occurs n.parts m) : Occurs [n] m :=
  inner.trans fun _ mem => .part (.top (List.mem_singleton_self n)) mem

/-- What occurs in a tree occurs in one of its topmost nodes. -/
theorem Occurs.exists_mem (h : Occurs top m) : ∃ n ∈ top, Occurs [n] m := by
  induction h with
  | top mem => exact ⟨_, mem, .top (List.mem_singleton_self _)⟩
  | part _ mem ih =>
    obtain ⟨n, hn, outer⟩ := ih
    exact ⟨n, hn, .part outer mem⟩

/-- What occurs in a node is the node or occurs in its parts. -/
theorem Occurs.eq_or_part (h : Occurs [n] m) : m = n ∨ Occurs n.parts m := by
  induction h with
  | top mem => exact .inl (List.mem_singleton.1 mem)
  | part _ mem ih =>
    rcases ih with rfl | inner
    · exact .inr (.top mem)
    · exact .inr (.part inner mem)

/-- A property of all nodes of a tree. -/
def Everywhere (p : Node → Prop) (nodes : List Node) : Prop := ∀ n, Occurs nodes n → p n

variable {p : Node → Prop}

theorem everywhere_nil : Everywhere p [] := by
  intro n h
  obtain ⟨_, mem, -⟩ := h.exists_mem
  cases mem

theorem everywhere_cons {rest : List Node} :
    Everywhere p (n :: rest) ↔ p n ∧ Everywhere p n.parts ∧ Everywhere p rest := by
  constructor
  · intro h
    have here : Occurs (n :: rest) n := .top List.mem_cons_self
    exact ⟨h n here, fun m hm => h m (hm.trans fun _ mem => .part here mem),
      fun m hm => h m (hm.mono (List.subset_cons_self _ _))⟩
  · rintro ⟨first, inside, others⟩ m hm
    obtain ⟨k, mem, inner⟩ := hm.exists_mem
    rcases List.mem_cons.1 mem with rfl | mem
    · rcases inner.eq_or_part with rfl | inner
      · exact first
      · exact inside m inner
    · exact others m (inner.of_mem mem)

theorem everywhere_iff_forall : Everywhere p nodes ↔ ∀ n ∈ nodes, Everywhere p [n] := by
  constructor
  · exact fun h n mem m hm => h m (hm.of_mem mem)
  · intro h m hm
    obtain ⟨n, mem, inner⟩ := hm.exists_mem
    exact h n mem m inner

theorem Everywhere.subset (h : Everywhere p nodes) (sub : top ⊆ nodes) : Everywhere p top :=
  fun n hn => h n (hn.mono sub)

/-- A partial that is not settled ahead of time, or no partial at all. -/
def Unsettled : Node → Prop
  | .inclusion i | .parent i _ => i.target = none
  | .text _ | .interpolation _ _ | .sect _ | .block _ => True

/-- A node that is no partial, with overrides or without. -/
def PartialFree : Node → Prop
  | .inclusion _ | .parent _ _ => False
  | .text _ | .interpolation _ _ | .sect _ | .block _ => True

end Node

open Node (Everywhere everywhere_cons)

/-- What a tag makes of a tree under construction. -/
inductive Assembly.Adds (source : String) (a : Assembly) (tag : Tag) : Assembly → Prop
  | interpolation {name : String} {escaped : Bool}
    (kind : tag.directive = .interpolation name escaped) :
    Adds source a tag ⟨a.frames, .interpolation name escaped :: a.nodes⟩
  | inclusion {name : String} (kind : tag.directive = .inclusion name) :
    Adds source a tag ⟨a.frames, .inclusion ⟨name, tag.indent, none⟩ :: a.nodes⟩
  | nothing (kind : tag.directive = .comment ∨ ∃ d, tag.directive = .delimiters d) :
    Adds source a tag a
  | opening {opener : Opener} {name : String} (kind : tag.directive = .opening opener name) :
    Adds source a tag
      ⟨⟨opener, name, tag.stop.offset, tag.delimiters, a.nodes⟩ :: a.frames, []⟩
  | closing {f : Frame} {outer : List Frame} (kind : tag.directive = .closing f.name)
    (innermost : a.frames = f :: outer) :
    Adds source a tag ⟨outer, f.close source tag.bodyStop a.nodes.reverse :: f.before⟩

theorem Assembly.addTag_ok_iff {source : String} {a b : Assembly} {tag : Tag} :
    addTag source a tag = .ok b ↔ Adds source a tag b := by
  constructor
  · intro ok
    unfold addTag at ok
    split at ok
    · obtain rfl := Except.ok.inj ok
      exact .interpolation ‹_›
    · obtain rfl := Except.ok.inj ok
      exact .inclusion ‹_›
    · obtain rfl := Except.ok.inj ok
      exact .nothing (.inl ‹_›)
    · obtain rfl := Except.ok.inj ok
      exact .nothing (.inr ⟨_, ‹_›⟩)
    · obtain rfl := Except.ok.inj ok
      exact .opening ‹_›
    · split at ok
      · cases ok
      · split at ok
        · rename_i kind _ f outer innermost same
          obtain rfl := Except.ok.inj ok
          exact .closing (by rw [kind, same]) innermost
        · cases ok
  · intro adds
    unfold addTag
    cases adds with
    | nothing kind => rcases kind with kind | ⟨d, kind⟩ <;> rw [kind]
    | closing kind innermost =>
      rw [kind, innermost]
      exact if_pos rfl
    | interpolation kind | inclusion kind | opening kind => rw [kind]

/-- A property of every node that is complete when it is read, if the indents that tags take away
are among `indents`. -/
structure Assembly.Makes (indents : String → Prop) (p : Node → Prop) : Prop where
  text (t : String) : p (.text t)
  interpolation (name : String) (escaped : Bool) : p (.interpolation name escaped)
  inclusion (name : String) {indent : String} (h : indents indent) :
    p (.inclusion ⟨name, indent, none⟩)

/-- A property of the node that a tag completes, if it does. -/
def Assembly.Closes (source : String) (p : Node → Prop) (a : Assembly) (tag : Tag) : Prop :=
  ∀ f outer, a.frames = f :: outer → tag.directive = .closing f.name →
    p (f.close source tag.bodyStop a.nodes.reverse)

/-- Of the children that a closing tag finds, only those are kept that are in the node it makes. -/
theorem Frame.parts_close (source : String) (f : Frame) (stop : Nat) (children : List Node) :
    (f.close source stop children).parts ⊆ children := by
  unfold Frame.close
  cases f.opener with
  | sect inverted => exact List.Subset.refl _
  | block => exact List.Subset.refl _
  | parent =>
    intro n hn
    obtain ⟨b, hb, rfl⟩ := List.mem_map.1 hn
    obtain ⟨child, mem, kept⟩ := List.mem_filterMap.1 hb
    cases child with
    | block c => exact Option.some.inj kept ▸ mem
    | _ => cases kept

namespace Assembly
variable {indents : String → Prop} {p : Node → Prop} {source : String} {a b : Assembly}
  {nodes : List Node}

/-- A property of all nodes of a tree under construction. -/
structure Everywhere (p : Node → Prop) (a : Assembly) : Prop where
  nodes : Node.Everywhere p a.nodes
  frames : ∀ f ∈ a.frames, Node.Everywhere p f.before

theorem everywhere_empty : empty.Everywhere p := ⟨Node.everywhere_nil, fun _ mem => nomatch mem⟩

theorem everywhere_text (makes : Makes indents p) (h : Node.Everywhere p nodes) (t : String) :
    Node.Everywhere p (.text t :: nodes) :=
  everywhere_cons.2 ⟨makes.text t, Node.everywhere_nil, h⟩

theorem everywhere_pushText (makes : Makes indents p) (h : Node.Everywhere p nodes) (t : String) :
    Node.Everywhere p (Node.pushText t nodes) := by
  unfold Node.pushText
  split
  · exact h
  · split
    · exact everywhere_text makes (everywhere_cons.1 h).2.2 _
    · exact everywhere_text makes h t

theorem everywhere_trimIndent (makes : Makes indents p) (h : Node.Everywhere p nodes)
    (indent : String) : Node.Everywhere p (Node.trimIndent indent nodes) := by
  unfold Node.trimIndent
  split
  · exact h
  · split
    · have rest := (everywhere_cons.1 h).2.2
      dsimp only
      split
      · exact rest
      · exact everywhere_text makes rest _
    · exact h

theorem everywhere_addTag (makes : Makes indents p) (h : a.Everywhere p) {tag : Tag}
    (indent : indents tag.indent) (closes : Closes source p a tag)
    (ok : addTag source a tag = .ok b) : b.Everywhere p := by
  cases addTag_ok_iff.1 ok with
  | interpolation =>
    exact ⟨everywhere_cons.2 ⟨makes.interpolation _ _, Node.everywhere_nil, h.nodes⟩, h.frames⟩
  | inclusion =>
    exact ⟨everywhere_cons.2 ⟨makes.inclusion _ indent, Node.everywhere_nil, h.nodes⟩, h.frames⟩
  | nothing => exact h
  | opening =>
    refine ⟨Node.everywhere_nil, fun f mem => ?_⟩
    rcases List.mem_cons.1 mem with rfl | mem
    · exact h.nodes
    · exact h.frames f mem
  | @closing f outer kind innermost =>
    have frames := h.frames
    rw [innermost] at frames
    -- the node that closes is new; its parts have been here before
    have children : Node.Everywhere p a.nodes.reverse :=
      h.nodes.subset fun n hn => List.mem_reverse.1 hn
    exact ⟨everywhere_cons.2 ⟨closes f outer innermost kind,
      children.subset (f.parts_close _ _ _), frames f List.mem_cons_self⟩,
      fun g mem => frames g (List.mem_cons_of_mem _ mem)⟩

/-- The level, once the text in front of a tag is in place. -/
def place (a : Assembly) (segment : Segment) : Assembly :=
  { a with nodes := Node.trimIndent segment.tag.indent (Node.pushText segment.lead a.nodes) }

theorem everywhere_add (makes : Makes indents p) (h : a.Everywhere p) {segment : Segment}
    (indent : indents segment.tag.indent)
    (closes : Closes source p (a.place segment) segment.tag)
    (ok : add source a segment = .ok b) : b.Everywhere p := by
  have trimmed := everywhere_trimIndent makes (everywhere_pushText makes h.nodes segment.lead)
    segment.tag.indent
  have placed : Everywhere p (a.place segment) := ⟨trimmed, h.frames⟩
  exact everywhere_addTag makes placed indent closes ok

theorem everywhere_foldlM (makes : Makes indents p) (closes : ∀ a tag, Closes source p a tag)
    {segments : List Segment} (taken : ∀ segment ∈ segments, indents segment.tag.indent)
    (h : a.Everywhere p) (ok : segments.foldlM (add source) a = .ok b) : b.Everywhere p := by
  induction segments generalizing a with
  | nil =>
    obtain rfl := Except.ok.inj ok
    exact h
  | cons segment rest ih =>
    rw [List.foldlM_cons] at ok
    cases first : add source a segment with
    | error e =>
      rw [first] at ok
      cases ok
    | ok mid =>
      rw [first] at ok
      obtain ⟨indent, taken⟩ := List.forall_mem_cons.1 taken
      exact ih taken (everywhere_add makes h indent (closes _ _) first) ok

end Assembly

/-- What holds of every node that a tag can make holds of every node that is read. -/
theorem everywhere_parseNodes {indents : String → Prop} {p : Node → Prop}
    (makes : Assembly.Makes indents p) {source : String}
    (closes : ∀ a tag, Assembly.Closes source p a tag) {d : ValidDelimiters}
    (taken : ∀ segment ∈ (scan source d).segments, indents segment.tag.indent) {nodes : List Node}
    (ok : parseNodes source d = .ok nodes) : Everywhere p nodes := by
  unfold parseNodes Scan.assemble at ok
  cases folded : (scan source d).segments.foldlM (Assembly.add source) .empty with
  | error e =>
    rw [folded] at ok
    cases ok
  | ok a =>
    rw [folded] at ok
    have all := Assembly.everywhere_foldlM makes closes taken Assembly.everywhere_empty folded
    change a.finish _ = _ at ok
    unfold Assembly.finish at ok
    split at ok
    · cases ok
    · split at ok
      · obtain rfl := Except.ok.inj ok
        exact (Assembly.everywhere_pushText makes all.nodes _).subset fun n hn =>
          List.mem_reverse.1 hn
      · cases ok

theorem Assembly.makes_unsettled : Makes (fun _ => True) Node.Unsettled where
  text _ := trivial
  interpolation _ _ := trivial
  inclusion _ _ _ := rfl

theorem Assembly.closes_unsettled (source : String) (a : Assembly) (tag : Tag) :
    Closes source Node.Unsettled a tag := by
  intro f _ _ _
  unfold Frame.close
  cases f.opener with
  | sect | block => trivial
  | parent => rfl

theorem exists_of_map_ok {ε α β : Type} {x : Except ε α} {f : α → β} {b : β}
    (h : x.map f = .ok b) : ∃ a, x = .ok a ∧ f a = b := by
  cases x with
  | error e => cases h
  | ok a => exact ⟨a, rfl, Except.ok.inj h⟩

theorem Template.nodes_of_parseWith {d : Delimiters} {source : String} {t : Template}
    (ok : parseWith d source = .ok t) :
    ∃ valid : d.Valid, parseNodes source ⟨d, valid⟩ = .ok t.nodes := by
  unfold parseWith at ok
  split at ok
  · rename_i valid
    obtain ⟨nodes, parsed, rfl⟩ := exists_of_map_ok ok
    exact ⟨valid, parsed⟩
  · cases ok

/-- No partial is settled by reading. -/
theorem Template.unsettled_of_parse {d : Delimiters} {source : String} {t : Template}
    (ok : Template.parseWith d source = .ok t) : Everywhere Node.Unsettled t.nodes := by
  obtain ⟨_, parsed⟩ := nodes_of_parseWith ok
  exact everywhere_parseNodes Assembly.makes_unsettled (Assembly.closes_unsettled source)
    (fun _ _ => trivial) parsed

end Mustache
