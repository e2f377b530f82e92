import Mustache.Proofs.Reading.Print

/-! What is written is read again: a tree, written out and read with the same delimiters, comes back
with bodies that are what its children were written as. -/
namespace Mustache

namespace Node
variable {d : Delimiters} {nodes read : List Node} {n n' : Node}

/-- A node without the bodies of its sections. -/
def bare (n : Node) : Node := n.mapBody fun _ => .absent

/-- These nodes again, with bodies that are what their children are written as. -/
structure Restored (d : Delimiters) (nodes read : List Node) : Prop where
  same : read.map bare = nodes.map bare
  bodies : ∀ s, Occurs read (.sect s) →
    s.body.delimiters = d ∧ s.body.text = String.ofList (prints d s.children)

theorem bare_sect (name : String) (inverted : Bool) (body : Body) (children : List Node) :
    (Node.sect ⟨name, inverted, body, children⟩).bare =
      .sect ⟨name, inverted, .absent, children.map bare⟩ :=
  congrArg (fun more => Node.sect ⟨name, inverted, .absent, more⟩) (mapBodies_eq _ children)

theorem bare_block (name : String) (children : List Node) :
    (Node.block ⟨name, children⟩).bare = .block ⟨name, children.map bare⟩ :=
  congrArg (fun more => Node.block ⟨name, more⟩) (mapBodies_eq _ children)

theorem bare_parent (i : Inclusion) (overrides : List Block) :
    (Node.parent i overrides).bare = .parent i (overrides.map (Block.mapBody fun _ => .absent)) :=
  mapBody_parent _ i overrides

/-! What is written -/

theorem prints_cons (n : Node) (rest : List Node) :
    prints d (n :: rest) = n.print d ++ prints d rest := rfl

theorem prints_map {f : Node → Node} (h : ∀ n ∈ nodes, (f n).print d = n.print d) :
    prints d (nodes.map f) = prints d nodes := by
  induction nodes with
  | nil => rfl
  | cons n rest ih =>
    rw [List.map_cons, prints_cons, prints_cons, h n List.mem_cons_self,
      ih fun m mem => h m (List.mem_cons_of_mem _ mem)]

theorem prints_blocks (blocks : List Block) :
    Block.prints d blocks = prints d (blocks.map .block) := by
  induction blocks with
  | nil => rfl
  | cons b rest ih => rw [Block.prints, ih, List.map_cons, prints_cons, print]

/-- Nodes with parts are written as their parts between two tags. -/
theorem print_sect (s : Section) :
    (Node.sect s).print d = d.enclose (.sect s.inverted) s.name (prints d s.children) := by
  cases s
  rfl

theorem print_block (b : Block) :
    (Node.block b).print d = d.enclose .block b.name (prints d b.children) := by
  cases b
  rfl

theorem print_parent (i : Inclusion) (overrides : List Block) :
    (Node.parent i overrides).print d =
      d.enclose .parent i.name (prints d (overrides.map .block)) := by
  rw [print, prints_blocks]

/-- Bodies are not written. -/
theorem print_mapBody (f : Body → Body) (n : Node) : (n.mapBody f).print d = n.print d := by
  induction n using induction_parts with
  | step n ih =>
    have same := prints_map ih
    rw [← parts_mapBody] at same
    cases n with
    | text | interpolation | inclusion => rfl
    | sect s =>
      rw [mapBody_sect, print_sect, print_sect, Section.name_mapBody, Section.inverted_mapBody]
      exact congrArg _ same
    | block b =>
      rw [mapBody_block, print_block, print_block, Block.name_mapBody]
      exact congrArg _ same
    | parent i overrides =>
      rw [mapBody_parent] at same ⊢
      rw [print_parent, print_parent]
      exact congrArg _ same

theorem print_bare (n : Node) : n.bare.print d = n.print d := print_mapBody _ n

theorem prints_of_bare (h : read.map bare = nodes.map bare) : prints d read = prints d nodes := by
  have written := congrArg (prints d) h
  rwa [prints_map fun n _ => n.print_bare, prints_map fun n _ => n.print_bare] at written

/-! What comes back -/

theorem restored_nil : Restored d [] [] where
  same := rfl
  bodies s occurs := by
    obtain ⟨_, mem, -⟩ := occurs.exists_mem
    cases mem

theorem Restored.cons (h : Restored d [n] [n']) (h' : Restored d nodes read) :
    Restored d (n :: nodes) (n' :: read) where
  same := by
    have first : n'.bare = n.bare := List.singleton_inj.1 h.same
    rw [List.map_cons, List.map_cons, first, h'.same]
  bodies s occurs := by
    obtain ⟨m, mem, inner⟩ := occurs.exists_mem
    rcases List.mem_cons.1 mem with rfl | mem
    · exact h.bodies s inner
    · exact h'.bodies s (inner.of_mem mem)

/-- A node with no parts comes back as it is. -/
theorem restored_self (atom : n.parts = []) (other : ∀ s, n ≠ .sect s) : Restored d [n] [n] where
  same := rfl
  bodies s occurs := by
    rcases occurs.eq_or_part with same | inner
    · exact absurd same.symm (other s)
    · rw [atom] at inner
      obtain ⟨_, mem, -⟩ := inner.exists_mem
      cases mem

theorem Restored.sect (h : Restored d nodes read) {body : Body} (old : Body) (name : String)
    (inverted : Bool) (delimiters : body.delimiters = d)
    (text : body.text = String.ofList (prints d nodes)) :
    Restored d [.sect ⟨name, inverted, old, nodes⟩] [.sect ⟨name, inverted, body, read⟩] where
  same := by simp only [List.map_cons, List.map_nil, bare_sect, h.same]
  bodies s occurs := by
    rcases occurs.eq_or_part with same | inner
    · obtain rfl := Node.sect.inj same
      exact ⟨delimiters, by rw [text, prints_of_bare h.same]⟩
    · exact h.bodies s inner

theorem Restored.block (h : Restored d nodes read) (name : String) :
    Restored d [.block ⟨name, nodes⟩] [.block ⟨name, read⟩] where
  same := by simp only [List.map_cons, List.map_nil, bare_block, h.same]
  bodies s occurs := by
    rcases occurs.eq_or_part with same | inner
    · cases same
    · exact h.bodies s inner

theorem filterMap_block?_blocks (blocks : List Block) :
    (blocks.map Node.block).filterMap block? = blocks := by
  rw [List.filterMap_map]
  exact List.filterMap_some

/-- Of what is read inside a partial the blocks are kept. All of it is blocks. -/
theorem Restored.parent {overrides : List Block} (h : Restored d (overrides.map .block) read)
    (i : Inclusion) : Restored d [.parent i overrides] [.parent i (read.filterMap block?)] where
  same := by
    have blocks : (read.map (mapBody fun _ => .absent)).filterMap block? =
        ((overrides.map Node.block).map (mapBody fun _ => .absent)).filterMap block? :=
      congrArg (List.filterMap block?) h.same
    rw [filterMap_block?_map, filterMap_block?_map, filterMap_block?_blocks] at blocks
    simp only [List.map_cons, List.map_nil, bare_parent, blocks]
  bodies s occurs := by
    rcases occurs.eq_or_part with same | inner
    · cases same
    · have kept := Frame.parts_close "" ⟨.parent, "", 0, d, []⟩ 0 read
      exact h.bodies s (inner.mono kept)

theorem isText_mapBody (f : Body → Body) (n : Node) : (n.mapBody f).isText = n.isText := by
  cases n <;> rfl

theorem isText_of_restored (h : Restored d [n] [n']) : n'.isText = n.isText := by
  have same := congrArg isText (List.singleton_inj.1 h.same)
  rwa [bare, bare, isText_mapBody, isText_mapBody] at same

end Node

/-! Ink around what is written -/

theorem Sigil.whole_marks (sigil : Sigil) : ∀ c ∈ sigil.marks, Text.isWhiteSpace c = false := by
  intro c mem
  rcases sigil with _ | _ | ((_ | _) | _ | _) | _ | _ | _ | _ <;>
    simp only [marks, List.mem_singleton, List.not_mem_nil] at mem <;> subst mem <;> decide

variable {source : String} {d : ValidDelimiters} {name : String}

theorem Delimiters.tag_ne_nil (d : ValidDelimiters) (sigil : Sigil) (name : String) :
    d.val.tag sigil name ≠ [] :=
  List.append_ne_nil_of_left_ne_nil (toList_ne_nil_of_usable d.property.1) _

/-- A tag is written without white space. -/
theorem Delimiters.Word.framed_tag (word : d.val.Word name) (sigil : Sigil) :
    Text.Framed (d.val.tag sigil name) := by
  refine Text.framed_of_forall fun c mem => ?_
  simp only [tag, List.mem_append] at mem
  rcases mem with mem | mem | mem | mem
  · exact not_isWhiteSpace_of_usable d.property.1 mem
  · exact sigil.whole_marks c mem
  · exact word.whole c mem
  · exact not_isWhiteSpace_of_usable d.property.2 mem

theorem Delimiters.Word.framed_enclose (word : d.val.Word name) (opener : Opener)
    (inside : List Char) : Text.Framed (d.val.enclose opener name inside) where
  first := Text.inked_append_left (tag_ne_nil d _ name) (word.framed_tag _).first _
  last := by
    rw [enclose, List.reverse_append, List.reverse_append, List.append_assoc]
    have some : (d.val.tag .closing name).reverse ≠ [] := by simpa using tag_ne_nil d .closing name
    exact Text.inked_append_left some (word.framed_tag _).last _

theorem Node.framed_print {n : Node} (clean : n.Clean d.val) : Text.Framed (n.print d.val) := by
  cases n with
  | text t => exact clean.2.1
  | interpolation name escaped => exact clean.1.framed_tag _
  | inclusion i => exact clean.1.framed_tag _
  | sect s =>
    rw [print_sect]
    exact clean.1.framed_enclose _ _
  | parent i overrides =>
    rw [print_parent]
    exact clean.1.framed_enclose _ _
  | block b =>
    rw [print_block]
    exact clean.1.framed_enclose _ _

theorem Node.framed_prints {nodes : List Node} (clean : ∀ n ∈ nodes, n.Clean d.val) :
    Text.Framed (prints d.val nodes) := by
  induction nodes with
  | nil => exact Text.framed_nil
  | cons n rest ih =>
    exact Text.framed_append (framed_print (clean n List.mem_cons_self))
      (ih fun m mem => clean m (List.mem_cons_of_mem _ mem))

/-! Reading what is written -/

/-- Wherever the node is written, it is read again, behind whatever has been read before. Only a
text behind a text would not be read as a node of its own. -/
def Node.Yields (source : String) (d : ValidDelimiters) (n : Node) : Prop :=
  ∀ (c : Cursor) (tail : List Char), c.At source d (n.print d.val) tail →
    ∃ n', Restored d.val [n] [n'] ∧ ∀ frames base, (∀ b ∈ base.head?, b.Apart n) →
      c.read source ⟨frames, base⟩ =
        (c.skip (n.print d.val).length).read source ⟨frames, n' :: base⟩

/-- Nodes written one after the other are read one after the other. -/
theorem Node.read_prints {nodes : List Node} (each : ∀ n ∈ nodes, n.Yields source d)
    (clean : ∀ n ∈ nodes, n.Clean d.val) (apart : nodes.IsChain Apart) {c : Cursor}
    {tail : List Char} (here : c.At source d (prints d.val nodes) tail) :
    ∃ read, Restored d.val nodes read ∧
      ∀ frames base, (∀ b ∈ base.head?, ∀ n ∈ nodes.head?, b.Apart n) →
        c.read source ⟨frames, base⟩ =
          (c.skip (prints d.val nodes).length).read source ⟨frames, read.reverse ++ base⟩ := by
  induction nodes generalizing c with
  | nil => exact ⟨[], restored_nil, fun _ _ _ => rfl⟩
  | cons n rest ih =>
    have others : ∀ m ∈ rest, m.Clean d.val := fun m mem => clean m (List.mem_cons_of_mem _ mem)
    obtain ⟨next, apart⟩ := List.isChain_cons.1 apart
    obtain ⟨n', first, one⟩ :=
      each n List.mem_cons_self c _ (here.first (framed_prints others).first)
    obtain ⟨read, second, more⟩ :=
      ih (fun m mem => each m (List.mem_cons_of_mem _ mem)) others apart
        (here.second (framed_print (clean n List.mem_cons_self)).last)
    refine ⟨n' :: read, first.cons second, fun frames base behind => ?_⟩
    -- the node that has just been read stands between those in front and those to come
    have between : ∀ b ∈ (n' :: base).head?, ∀ m ∈ rest.head?, b.Apart m := by
      intro b hb m hm
      obtain rfl := Option.some.inj hb
      rw [Apart, isText_of_restored first]
      exact next m hm
    rw [one frames base fun b hb => behind b hb n rfl, more frames (n' :: base) between,
      Cursor.skip_skip, prints_cons, List.length_append, List.reverse_cons, List.append_assoc]
    rfl

open Node (prints Restored)

namespace Cursor
variable {c : Cursor} {tail inside : List Char}

theorem At.passes (h : c.At source d inside tail) : c.Passes inside (c.skip inside.length) := by
  have passed := c.passes_skip inside.length
  rwa [h.rest, List.take_left] at passed

theorem ofContent_word {sigil : Sigil} {make : String → Directive} (word : d.val.Word name)
    (kind : ∀ content, Directive.ofContent sigil content = (checkName content).map make) :
    Directive.ofContent sigil name.toList = .ok (make name) := by
  rw [kind, checkName_word word]
  rfl

/-- A tag that is written at a cursor is acted on, and reading goes on behind it. -/
theorem At.read_tag {sigil : Sigil} {directive : Directive}
    (h : c.At source d (d.val.tag sigil name) tail) (word : d.val.Word name)
    (plain : sigil = .escaped → ∀ ch ∈ name.toList.head?, Sigil.ofChar? ch = none)
    (content : Directive.ofContent sigil name.toList = .ok directive)
    (same : directive.delimitersAfter d = d) :
    ∃ alone, ∀ {a b : Assembly}, a.Adds source ⟨directive, c.place,
        (c.skip (d.val.tag sigil name).length).place, alone, "", d.val⟩ b →
      c.read source a = (c.skip (d.val.tag sigil name).length).read source b := by
  obtain ⟨alone, step⟩ := h.step_tag word plain content same
  refine ⟨alone, fun {a b} adds => ?_⟩
  have run : Reaches source (c, a) (c.skip (d.val.tag sigil name).length, b) :=
    .single ⟨_, step, Assembly.addTag_ok_iff.2 adds⟩
  exact read_of_reaches run

/-- A level that is written is read: its opening tag, the nodes in it, and its closing tag. -/
theorem At.read_enclose {children : List Node} (each : ∀ n ∈ children, n.Yields source d)
    (clean : ∀ n ∈ children, n.Clean d.val) (apart : children.IsChain Node.Apart)
    (word : d.val.Word name) {opener : Opener}
    (here : c.At source d (d.val.enclose opener name (prints d.val children)) tail) :
    ∃ (body : Body) (read : List Node), Restored d.val children read ∧
      body.delimiters = d.val ∧ body.text = String.ofList (prints d.val children) ∧
      ∀ frames base, c.read source ⟨frames, base⟩ =
        (c.skip (d.val.enclose opener name (prints d.val children)).length).read source
          ⟨frames, Frame.close body.source ⟨opener, name, body.start, body.delimiters, base⟩
            body.stop read :: base⟩ := by
  have framed := Node.framed_prints clean
  have closing := (word.framed_tag .closing).first
  have opened := here.first (Text.inked_append framed.first closing)
  have behind := here.second (word.framed_tag (.opening opener)).last
  have inside := behind.first closing
  have closed := behind.second framed.last
  have content : Directive.ofContent (.opening opener) name.toList = .ok (.opening opener name) :=
    ofContent_word word fun _ => rfl
  have content' : Directive.ofContent .closing name.toList = .ok (.closing name) :=
    ofContent_word word fun _ => rfl
  obtain ⟨alone, opens⟩ := opened.read_tag word nofun content rfl
  obtain ⟨alone', closes⟩ := closed.read_tag word nofun content' rfl
  obtain ⟨read, restored, more⟩ := Node.read_prints each clean apart inside
  obtain ⟨before, passed⟩ := inside.passed
  have lies := passed.lies inside.passes d.val
  have whole : c.skip (d.val.enclose opener name (prints d.val children)).length =
      ((c.skip (d.val.tag (.opening opener) name).length).skip
        (prints d.val children).length).skip (d.val.tag .closing name).length := by
    rw [skip_skip, skip_skip, Delimiters.enclose, List.length_append, List.length_append]
  rw [whole]
  generalize c.skip (d.val.tag (.opening opener) name).length = first at *
  generalize first.skip (prints d.val children).length = last at *
  refine ⟨⟨source, first.place.offset, last.place.offset, d.val⟩, read, restored, rfl,
    lies.text, fun frames base => ?_⟩
  let f : Frame := ⟨opener, name, first.place.offset, d.val, base⟩
  calc c.read source ⟨frames, base⟩
    _ = first.read source ⟨f :: frames, []⟩ := opens (.opening rfl)
    _ = last.read source ⟨f :: frames, read.reverse⟩ := by
      rw [more (f :: frames) [] nofun, List.append_nil]
    _ = (last.skip (d.val.tag .closing name).length).read source
        ⟨frames, f.close source last.place.offset read.reverse.reverse :: base⟩ :=
      closes (.closing rfl rfl)
    _ = _ := by rw [List.reverse_reverse]

end Cursor

namespace Node

theorem yields_text {t : String} (clean : (text t).Clean d.val) : (text t).Yields source d := by
  intro c tail here
  have none : ∀ k < t.toList.length, ¬ c.delimiters.val.opening.toList <+: c.rest.drop k := by
    rw [here.rest, here.delimiters]
    exact Text.not_prefix_of_clear (Delimiters.toList_ne_nil_of_usable d.property.1)
      fun ch mem => (clean.2.2 ch mem).1
  refine ⟨text t, restored_self rfl nofun, fun frames base behind => ?_⟩
  have taken : c.rest.take t.toList.length = t.toList := by
    rw [here.rest]
    exact List.take_left
  have new : pushText t base = text t :: base := by
    rcases text_or_pushText base with ⟨last, rest, rfl⟩ | new
    · exact absurd ⟨rfl, rfl⟩ (behind _ rfl)
    · exact new t fun empty => clean.1 (by rw [empty]; rfl)
  rw [Cursor.read_skip none, taken, String.ofList_toList]
  unfold Assembly.pushText
  rw [new]
  rfl

theorem yields_interpolation {escaped : Bool} (clean : (interpolation name escaped).Clean d.val) :
    (interpolation name escaped).Yields source d := by
  intro c tail here
  have kind (content : List Char) :
      Directive.ofContent (if escaped then .escaped else .raw) content =
        (checkName content).map (.interpolation · escaped) := by
    cases escaped <;> rfl
  have plain (same : (if escaped then Sigil.escaped else .raw) = .escaped) :
      ∀ ch ∈ name.toList.head?, Sigil.ofChar? ch = none := by
    have escaped : escaped = true := by cases escaped; cases same; rfl
    exact fun ch mem => Sigil.ofChar?_eq_none (clean.2 escaped ch mem)
  obtain ⟨alone, acts⟩ := here.read_tag clean.1 plain (Cursor.ofContent_word clean.1 kind) rfl
  exact ⟨_, restored_self rfl nofun, fun frames base _ => acts (.interpolation rfl)⟩

theorem yields_inclusion {i : Inclusion} (clean : (inclusion i).Clean d.val) :
    (inclusion i).Yields source d := by
  intro c tail here
  obtain ⟨name, indent, target⟩ := i
  obtain ⟨word, rfl, rfl⟩ := clean
  have content : Directive.ofContent .inclusion name.toList = .ok (.inclusion name) :=
    Cursor.ofContent_word word fun _ => rfl
  obtain ⟨alone, acts⟩ := here.read_tag word nofun content rfl
  exact ⟨_, restored_self rfl nofun, fun frames base _ => acts (.inclusion rfl)⟩

theorem isChain_blocks (blocks : List Block) : (blocks.map Node.block).IsChain Apart := by
  induction blocks with
  | nil => exact .nil
  | cons b rest ih => exact ih.cons fun _ _ => nofun

/-- Every node of a clean tree is read again wherever it is written. -/
theorem yields_of_clean (n : Node) (clean : Everywhere (Clean d.val) [n]) :
    n.Yields source d := by
  induction n using induction_parts with
  | step n ih =>
    obtain ⟨here, inside, -⟩ := everywhere_cons.1 clean
    have parts : ∀ m ∈ n.parts, m.Clean d.val := fun m mem => inside m (.top mem)
    have each : ∀ m ∈ n.parts, m.Yields source d := fun m mem =>
      ih m mem (everywhere_iff_forall.1 inside m mem)
    cases n with
    | text t => exact yields_text here
    | interpolation name escaped => exact yields_interpolation here
    | inclusion i => exact yields_inclusion here
    | sect s =>
      intro c tail written
      obtain ⟨name, inverted, old, children⟩ := s
      obtain ⟨body, read, restored, delimiters, text, more⟩ :=
        written.read_enclose each parts here.2 here.1
      exact ⟨_, restored.sect old name inverted delimiters text, fun frames base _ =>
        more frames base⟩
    | block b =>
      intro c tail written
      obtain ⟨name, children⟩ := b
      obtain ⟨body, read, restored, -, -, more⟩ := written.read_enclose each parts here.2 here.1
      exact ⟨_, restored.block name, fun frames base _ => more frames base⟩
    | parent i overrides =>
      intro c tail written
      obtain ⟨name, indent, target⟩ := i
      obtain ⟨word, rfl, rfl⟩ := here
      rw [print_parent] at written ⊢
      obtain ⟨body, read, restored, -, -, more⟩ :=
        written.read_enclose each parts (isChain_blocks overrides) word
      exact ⟨_, restored.parent (.named name), fun frames base _ => more frames base⟩

end Node

/-- A source begins in front of what it was made of. -/
theorem Cursor.at_ofSource (d : ValidDelimiters) (written : List Char) :
    (ofSource (String.ofList written) d).At (String.ofList written) d written [] where
  delimiters := rfl
  passed := ⟨[], .refl _⟩
  margin := nofun
  rest := by rw [ofSource, String.toList_ofList, List.append_nil]
  behind := nofun

/-- Nothing more is read at the end of a source. -/
theorem Cursor.read_end {c : Cursor} (h : c.rest = []) (source : String) (nodes : List Node) :
    c.read source ⟨[], nodes⟩ = .ok nodes.reverse := by
  have none : Text.occurrence? c.delimiters.val.opening.toList [] = none :=
    if_neg (by simpa using Delimiters.toList_ne_nil_of_usable c.delimiters.property.1)
  have stop : c.step = .error (.finished "" (c.skip 0).place c.delimiters.val) := by
    rw [step_eq, h, none]
    rfl
  rw [read_of_error stop]
  rfl

/-- Reading undoes writing: a tree that can be told from its text, written out with a pair of valid
delimiters and read with the same pair, comes back. The body of each section is what its children
are written as. -/
theorem Template.parseWith_print {d : Delimiters} (valid : d.Valid) {nodes : List Node}
    (clean : Node.Everywhere (Node.Clean d) nodes) (apart : nodes.IsChain Node.Apart) :
    ∃ read, parseWith d (String.ofList (prints d nodes)) =
        .ok ⟨none, String.ofList (prints d nodes), read⟩ ∧ Restored d nodes read := by
  let pair : ValidDelimiters := ⟨d, valid⟩
  have start := Cursor.at_ofSource pair (prints d nodes)
  have each : ∀ n ∈ nodes, n.Yields (String.ofList (prints d nodes)) pair := fun n mem =>
    n.yields_of_clean (Node.everywhere_iff_forall.1 clean n mem)
  obtain ⟨read, restored, whole⟩ :=
    Node.read_prints each (fun n mem => clean n (.top mem)) apart start
  have parsed : parseNodes (String.ofList (prints d nodes)) pair = .ok read := by
    rw [parseNodes_eq]
    refine (whole [] [] nofun).trans ?_
    rw [Cursor.read_end, List.append_nil, List.reverse_reverse]
    rw [Cursor.rest_skip, start.rest]
    exact List.drop_left
  refine ⟨read, ?_, restored⟩
  rw [parseWith, dif_pos valid, parsed]
  rfl

/-- Delimiters that are marks themselves. -/
def Delimiters.hashSlash : Delimiters := ⟨"#", "/"⟩

/-- A letter to everybody on a list. -/
def circular : List Node :=
  [.text "Dear", .sect ⟨"all", false, .absent, [.interpolation "name" true, .text ",\n&c."]⟩,
    .parent (.named "letter") [⟨"close", [.text "Yours"]⟩]]

def circularText : String :=
  "Dear##all/#name/,\n&c.#/all/#<letter/#$close/Yours#/close/#/letter/"

theorem Template.parseWith_circular : ∃ read,
    parseWith .hashSlash circularText = .ok ⟨none, circularText, read⟩ ∧
      Restored .hashSlash circular read := by
  have written : String.ofList (prints .hashSlash circular) = circularText := by decide +kernel
  have clean : Node.Everywhere (Node.Clean .hashSlash) circular := by
    simp only [circular, Node.everywhere_cons, Node.parts, List.map_cons, List.map_nil,
      Node.everywhere_nil, and_true]
    decide +kernel
  rw [← written]
  exact parseWith_print (by decide +kernel) clean (by decide +kernel)

end Mustache
