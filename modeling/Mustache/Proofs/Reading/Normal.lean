import Mustache.Node.Equality
import Mustache.Proofs.Reading.Growth
import Mustache.Proofs.Reading.Indents
import Mustache.Proofs.Reading.Printed

/-! The normal form of what is read: lists of children without empty texts and without two texts side
by side, names of one word, indents of blanks. A level keeps it as it grows: text joins a text that is
newest, an indent is taken back from text that has just been put in place, and the node of a closing
tag is no text. -/
namespace Mustache

/-! Names -/

/-- One word: some characters, and no white space among them. -/
structure Text.IsWord (name : String) : Prop where
  some : name ≠ ""
  whole : ∀ c ∈ name.toList, isWhiteSpace c = false

/-- The name in a tag. -/
def Directive.name? : Directive → Option String
  | interpolation name _ | opening _ name | closing name | inclusion name => some name
  | comment | delimiters _ => none

/-- The name of a node. -/
def Node.name? : Node → Option String
  | .text _ => none
  | .interpolation name _ => some name
  | .sect s => some s.name
  | .inclusion i | .parent i _ => some i.name
  | .block b => some b.name

theorem isWord_of_checkName {content : List Char} {name : String}
    (h : checkName content = .ok name) : Text.IsWord name := by
  unfold checkName at h
  dsimp only at h
  split at h
  · cases h
  · split at h
    · cases h
    · rename_i full whole
      obtain rfl := Except.ok.inj h
      exact ⟨by simpa using full, by simpa using whole⟩

theorem Directive.isWord_of_ofContent {sigil : Sigil} {content : List Char}
    {directive : Directive} (h : ofContent sigil content = .ok directive) :
    ∀ name ∈ directive.name?, Text.IsWord name := by
  cases sigil with
  | comment =>
    obtain rfl := Except.ok.inj h
    nofun
  | delimiters =>
    obtain ⟨next, -, rfl⟩ := exists_of_map_ok h
    nofun
  | escaped | raw | opening | closing | inclusion =>
    obtain ⟨word, read, rfl⟩ := exists_of_map_ok h
    rintro _ ⟨⟩
    exact isWord_of_checkName read

theorem Cursor.isWord_step {c next : Cursor} {segment : Segment}
    (h : c.step = .ok (segment, next)) :
    ∀ name ∈ segment.tag.directive.name?, Text.IsWord name := by
  obtain ⟨n, directive, after, -, read, made⟩ := step_ok_iff.1 h
  obtain ⟨m, -, meaning, -⟩ := readTag_ok_iff.1 read
  obtain ⟨rfl, -⟩ := Prod.mk.inj made
  exact Directive.isWord_of_ofContent meaning

/-- A tag that names one word, if it names anything, behind an indent of blanks. -/
structure Segment.Tidy (g : Segment) : Prop where
  name : ∀ name ∈ g.tag.directive.name?, Text.IsWord name
  indent : g.tag.indent.toList.all Text.isBlank = true

theorem Cursor.tidy_of_scan (c : Cursor) : ∀ g ∈ c.scan.segments, g.Tidy :=
  forall_scan (fun read => ⟨isWord_step read, blank_step read⟩) c

/-! Levels -/

namespace Node
variable {nodes rest : List Node} {n : Node} {text : String}

/-- A list of children in normal form: no text is empty, and no two texts are neighbours. -/
structure Normal (nodes : List Node) : Prop where
  full : .text "" ∉ nodes
  apart : nodes.IsChain Apart

/-- A node with one word for a name and blanks for an indent, if it has them, and with parts in
normal form. The overrides of a partial are parts of it, and their children are parts of theirs. -/
structure Tidy (n : Node) : Prop where
  name : ∀ name ∈ n.name?, Text.IsWord name
  indent : n.Blank
  parts : Normal n.parts

/-- Normal form at any nesting. -/
structure NormalForm (nodes : List Node) : Prop where
  level : Normal nodes
  inside : Everywhere Tidy nodes

theorem normal_nil : Normal [] := ⟨List.not_mem_nil, .nil⟩

theorem normal_cons : Normal (n :: rest) ↔
    n ≠ .text "" ∧ (∀ m ∈ rest.head?, Apart n m) ∧ Normal rest := by
  constructor
  · rintro ⟨full, apart⟩
    obtain ⟨next, apart⟩ := List.isChain_cons.1 apart
    exact ⟨fun empty => full (empty ▸ List.mem_cons_self), next,
      fun mem => full (List.mem_cons_of_mem _ mem), apart⟩
  · rintro ⟨some, next, full, apart⟩
    refine ⟨fun mem => ?_, List.isChain_cons.2 ⟨next, apart⟩⟩
    rcases List.mem_cons.1 mem with empty | mem
    · exact some empty.symm
    · exact full mem

theorem Normal.reverse (h : Normal nodes) : Normal nodes.reverse where
  full mem := h.full (List.mem_reverse.1 mem)
  apart := List.isChain_reverse.2 (h.apart.imp fun _ _ apart both => apart both.symm)

theorem Normal.solid (h : Normal nodes) : Solid nodes :=
  fun first => h.full (List.mem_of_mem_head? first)

/-- Overrides of a partial are no texts. -/
theorem normal_blocks (blocks : List Block) : Normal (blocks.map .block) where
  full mem := by simp at mem
  apart := isChain_blocks blocks

namespace NormalForm

theorem nil : NormalForm [] := ⟨normal_nil, everywhere_nil⟩

theorem reverse (h : NormalForm nodes) : NormalForm nodes.reverse :=
  ⟨h.level.reverse, h.inside.subset fun _ mem => List.mem_reverse.1 mem⟩

/-- A node that is no text may stand next to any other. -/
theorem cons (h : NormalForm nodes) (other : n.isText = false) (tidy : n.Tidy)
    (inside : Everywhere Tidy n.parts) : NormalForm (n :: nodes) where
  level := by
    refine normal_cons.2 ⟨?_, fun m _ both => ?_, h.level⟩
    · rintro rfl
      cases other
    · rw [other] at both
      cases both.1
  inside := everywhere_cons.2 ⟨tidy, inside, h.inside⟩

theorem cons_text (h : NormalForm nodes) (some : text ≠ "")
    (next : ∀ m ∈ nodes.head?, m.isText = false) : NormalForm (.text text :: nodes) where
  level := by
    refine normal_cons.2 ⟨fun empty => some (Node.text.inj empty), fun m mem both => ?_, h.level⟩
    rw [next m mem] at both
    cases both.2
  inside := everywhere_cons.2 ⟨⟨nofun, trivial, normal_nil⟩, everywhere_nil, h.inside⟩

theorem pushText (h : NormalForm nodes) (text : String) : NormalForm (pushText text nodes) := by
  by_cases empty : text = ""
  · rwa [empty, pushText_empty]
  · have new (next : ∀ m ∈ nodes.head?, m.isText = false) : NormalForm (.text text :: nodes) :=
      h.cons_text empty next
    have some : text.isEmpty = false := by simpa using empty
    rcases nodes with _ | ⟨n, rest⟩
    · simpa [Node.pushText, some] using new
    · cases n with
      | text last =>
        obtain ⟨full, next, level⟩ := normal_cons.1 h.level
        rw [pushText_text]
        refine cons_text ⟨level, (everywhere_cons.1 h.inside).2.2⟩ ?_ fun m mem => ?_
        · exact fun none => empty (String.append_eq_empty_iff.1 none).2
        · simpa [Apart, isText] using next m mem
      | _ => simpa [Node.pushText, some, isText] using new

/-- What a tag leaves of the text in front of it is put in place. -/
theorem onto (h : NormalForm nodes) {g : Segment} (here : g.Indented) :
    NormalForm (g.onto nodes) := by
  rw [Segment.onto, here, trimIndent_pushText h.level.solid]
  exact h.pushText _

/-- A tag that neither opens nor closes a level adds its node, if it leaves one. -/
theorem leaf (h : NormalForm nodes) {g : Segment} (tidy : g.Tidy) :
    NormalForm (g.tag.leaf ++ nodes) := by
  obtain ⟨name, indent⟩ := tidy
  unfold Tag.leaf
  cases kind : g.tag.directive <;> rw [kind] at name
  case interpolation word escaped =>
    exact h.cons rfl ⟨name, trivial, normal_nil⟩ everywhere_nil
  case inclusion word =>
    exact h.cons rfl ⟨name, indent, normal_nil⟩ everywhere_nil
  all_goals exact h

/-- A tag that closes a level adds the node of the level. -/
theorem close (h : NormalForm nodes) {children : List Node} (inside : NormalForm children)
    (source : String) (stop : Nat) {f : Frame} (word : Text.IsWord f.name) :
    NormalForm (f.close source stop children :: nodes) := by
  have parts := inside.inside.subset (f.parts_close source stop children)
  unfold Frame.close at parts ⊢
  have named : ∀ name ∈ some f.name, Text.IsWord name := by
    rintro _ ⟨⟩
    exact word
  cases kind : f.opener <;> rw [kind] at parts
  case sect => exact h.cons rfl ⟨named, trivial, inside.level⟩ parts
  case parent => exact h.cons rfl ⟨named, rfl, normal_blocks _⟩ parts
  case block => exact h.cons rfl ⟨named, trivial, inside.level⟩ parts

end NormalForm

end Node

/-- A level in normal form grows to one along tags that are tidy. -/
theorem Grows.normalForm {source : String} {segments : List Segment} {nodes nodes' : List Node}
    (h : Grows source segments nodes nodes') (tidy : ∀ g ∈ segments, g.Tidy)
    (level : Node.NormalForm nodes) : Node.NormalForm nodes' := by
  induction h with
  | nil => exact level
  | leaf here _ _ ih =>
    obtain ⟨first, later⟩ := List.forall_mem_cons.1 tidy
    exact ih later ((level.onto here).leaf first)
  | nest here there opens _ _ _ ih ih' =>
    obtain ⟨first, tidy⟩ := List.forall_mem_cons.1 tidy
    obtain ⟨inner, tidy⟩ := List.forall_mem_append.1 tidy
    obtain ⟨-, later⟩ := List.forall_mem_cons.1 tidy
    have word := first.name
    rw [opens] at word
    exact ih' later ((level.onto here).close ((ih inner .nil).onto there).reverse _ _
      (word _ rfl))

/-- Whatever is read is in normal form. In every list of children, be it that of the template, of a
section, of a block or of an override, no text is empty and no two texts are neighbours; every name
is one word; and every partial has an indent of spaces and tabs. -/
theorem Template.parseWith_normal {d : Delimiters} {source : String} {t : Template}
    (ok : Template.parseWith d source = .ok t) :
    Node.Normal t.nodes ∧ Node.Everywhere Node.Tidy t.nodes := by
  obtain ⟨_, read⟩ := Template.nodes_of_parseWith ok
  obtain ⟨level, text, _, _, -, grows, nodes⟩ := grows_of_parse read
  have form := ((grows.normalForm (Cursor.tidy_of_scan _) .nil).pushText text).reverse
  rw [← nodes] at form
  exact ⟨form.level, form.inside⟩

/-- Comments inside of texts, an indent that is all of a text, a partial behind an indent, and an
override next to text that is dropped. -/
def poster : String :=
  "  \x7b\x7b#team\x7d\x7d\n* \x7b\x7b! none \x7d\x7dall\n\t\x7b\x7b>card\x7d\x7d\n\x7b\x7b/team\x7d\x7d\n" ++
    "\x7b\x7b<page\x7d\x7dout\x7b\x7b$main\x7d\x7da\x7b\x7b!\n\x7d\x7db\x7b\x7b/main\x7d\x7d\x7b\x7b/page\x7d\x7d"

theorem parseWith_poster : ∃ t, Template.parseWith .standard poster = .ok t ∧
    t.nodes = [.sect ⟨"team", false, ⟨poster, 12, 40, .standard⟩,
        [.text "* all\n", .inclusion ⟨"card", "\t", none⟩]⟩,
      .parent ⟨"page", "", none⟩ [⟨"main", [.text "ab"]⟩]] ∧
    Node.Normal t.nodes ∧ Node.Everywhere Node.Tidy t.nodes := by
  have read : Template.parseWith .standard poster = .ok ⟨none, poster,
      [.sect ⟨"team", false, ⟨poster, 12, 40, .standard⟩,
        [.text "* all\n", .inclusion ⟨"card", "\t", none⟩]⟩,
      .parent ⟨"page", "", none⟩ [⟨"main", [.text "ab"]⟩]]⟩ := by decide +kernel
  exact ⟨_, read, rfl, Template.parseWith_normal read⟩

end Mustache
