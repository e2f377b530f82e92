import Mustache.Proofs.Render.Shifted
import Mustache.Proofs.Render.Written
import Mustache.Proofs.Text.Html
import Mustache.Proofs.Text.Lines

/-! Where the indent of a partial goes. The characters that a render writes come from the text of
templates or from values, and only a newline of the former begins a line. If no partial further in
has an indent of its own, then the indent stands in front of each line that is begun so, and nowhere
else. -/
namespace Mustache

/-- A character that is written, and where it comes from. -/
inductive Ink
  | text (c : Char)
  | value (c : Char)
  deriving DecidableEq

namespace Ink

def char : Ink → Char
  | text c | value c => c

/-- The next character begins a line. -/
def endsLine : Ink → Bool
  | text c => c == '\n'
  | value _ => false

/-- The characters in order, with the margin in front of each one that begins a line. -/
def lay (margin : List Char) : (fresh : Bool) → List Ink → List Char
  | _, [] => []
  | fresh, ink :: rest => (if fresh then margin else []) ++ ink.char :: lay margin ink.endsLine rest

/-- Whether what follows begins a line. -/
def leavesFresh (fresh : Bool) (inks : List Ink) : Bool :=
  inks.foldl (fun _ ink => ink.endsLine) fresh

@[simp] theorem map_char_text (cs : List Char) : (cs.map text).map char = cs := by
  rw [List.map_map]
  exact List.map_id cs

@[simp] theorem map_char_value (cs : List Char) : (cs.map value).map char = cs := by
  rw [List.map_map]
  exact List.map_id cs

variable {margin : List Char} {fresh : Bool} {inks : List Ink}

theorem lay_flush : lay [] fresh inks = inks.map char := by
  induction inks generalizing fresh with
  | nil => rfl
  | cons ink rest ih => simp [lay, ih]

theorem lay_append (more : List Ink) :
    lay margin fresh (inks ++ more) =
      lay margin fresh inks ++ lay margin (leavesFresh fresh inks) more := by
  induction inks generalizing fresh with
  | nil => rfl
  | cons ink rest ih =>
    rw [List.cons_append, lay, ih, lay]
    simp only [List.append_assoc, List.cons_append]
    rfl

theorem leavesFresh_append (more : List Ink) :
    leavesFresh fresh (inks ++ more) = leavesFresh (leavesFresh fresh inks) more :=
  List.foldl_append

/-- Behind the first character the margin comes no more, if no line ends before the last one. -/
theorem lay_line (some : inks ≠ []) (line : ∀ ink ∈ inks.dropLast, ink.endsLine = false) :
    lay margin fresh inks = (if fresh then margin else []) ++ inks.map char := by
  induction inks generalizing fresh with
  | nil => exact absurd rfl some
  | cons ink rest ih =>
    cases rest with
    | nil => rfl
    | cons second others =>
      rw [List.dropLast_cons_cons] at line
      obtain ⟨first, further⟩ := List.forall_mem_cons.1 line
      rw [lay, ih (List.cons_ne_nil _ _) further, first]
      rfl

theorem leavesFresh_line (some : inks ≠ []) :
    leavesFresh fresh inks = (inks.getLast some).endsLine := by
  obtain ⟨init, last, rfl⟩ := (List.eq_nil_or_concat' inks).resolve_left some
  rw [leavesFresh_append, List.getLast_append_singleton]
  rfl

end Ink

/-- The characters of a piece. -/
def Write.inks : Write → List Ink
  | .openLine => []
  | .text _ words => words.toList.map .text
  | .value _ _ written => written.toList.map .value

/-- The characters written by pieces, newest first. -/
def inksOf (writes : List Write) : List Ink := writes.reverse.flatMap Write.inks

theorem inksOf_cons (write : Write) (writes : List Write) :
    inksOf (write :: writes) = inksOf writes ++ write.inks := by
  simp [inksOf]

/-- The characters written so far. -/
def RenderState.inks {σ : Type} (s : RenderState σ) : List Ink := inksOf s.writes

namespace Page
variable {p : Page} {indent : String}

/-- The page with characters added under an indent. -/
def ink (indent : String) (p : Page) (inks : List Ink) : Page :=
  ⟨p.text ++ String.ofList (Ink.lay indent.toList p.lineStart inks),
    Ink.leavesFresh p.lineStart inks⟩

@[simp] theorem ink_nil : p.ink indent [] = p := by
  simp [ink, Ink.lay, Ink.leavesFresh]

theorem toList_ink_blank (indent : String) (inks : List Ink) :
    (blank.ink indent inks).text.toList = Ink.lay indent.toList true inks := by
  simp [ink, blank]

theorem ink_append (inks more : List Ink) :
    p.ink indent (inks ++ more) = (p.ink indent inks).ink indent more := by
  simp only [ink, Ink.lay_append, Ink.leavesFresh_append, String.ofList_append, String.append_assoc]

/-- Characters of which only the last one can end a line. -/
theorem ink_line {inks : List Ink} (some : inks ≠ [])
    (line : ∀ ink ∈ inks.dropLast, ink.endsLine = false) :
    p.ink indent inks =
      ⟨p.opened indent ++ String.ofList (inks.map Ink.char), (inks.getLast some).endsLine⟩ := by
  rw [ink, Ink.lay_line some line, Ink.leavesFresh_line some, opened, String.ofList_append,
    ← String.append_assoc]
  cases p.lineStart <;> simp

theorem putLine_eq_ink {line : List Char} (some : line ≠ []) (inside : '\n' ∉ line.dropLast) :
    putLine indent p line = p.ink indent (line.map .text) := by
  have quiet : ∀ ink ∈ (line.map Ink.text).dropLast, ink.endsLine = false := by
    rw [← List.map_dropLast]
    intro ink mem
    obtain ⟨c, here, rfl⟩ := List.mem_map.1 mem
    exact beq_false_of_ne fun same => inside (same ▸ here)
  rw [ink_line (by simpa using some) quiet, putLine, List.getLast_map, Ink.map_char_text,
    List.getLast?_eq_some_getLast some]
  rfl

/-- Template text that is laid out line by line. -/
theorem foldl_putLine_eq_ink (cs : List Char) :
    (Text.lines cs).foldl (putLine indent) p = p.ink indent (cs.map .text) := by
  have each {lines : List (List Char)} (h : ∀ line ∈ lines, line ≠ [] ∧ '\n' ∉ line.dropLast) :
      ∀ p : Page, lines.foldl (putLine indent) p = p.ink indent (lines.flatten.map .text) := by
    induction lines with
    | nil => exact fun p => ink_nil.symm
    | cons line rest ih =>
      intro p
      obtain ⟨⟨some, inside⟩, others⟩ := List.forall_mem_cons.1 h
      rw [List.foldl_cons, ih others, putLine_eq_ink some inside, ← ink_append, ← List.map_append]
      rfl
  rw [each fun line mem => ⟨Text.ne_nil_of_mem_lines mem, Text.newline_not_mem_dropLast mem⟩,
    Text.lines_flatten]

/-- A piece under an indent. It shows nothing only for an empty value. -/
theorem put_text_eq_ink (indented : indent ≠ "") (words : String) :
    p.put (.text indent words) = p.ink indent (words.toList.map .text) := by
  have some : indent.isEmpty = false := by simpa using indented
  simp only [put, some, Bool.false_eq_true, if_false]
  exact foldl_putLine_eq_ink words.toList

/-- Without an indent the page is not laid out, but the text is the same. -/
theorem text_put_text (words : String) :
    (p.put (.text indent words)).text = (p.ink indent (words.toList.map .text)).text := by
  by_cases none : indent = ""
  · have empty : indent.isEmpty = true := String.isEmpty_iff.2 none
    rw [put, if_pos empty, ink, none, String.toList_empty, Ink.lay_flush, Ink.map_char_text,
      String.ofList_toList]
  · rw [put_text_eq_ink none]

theorem put_value_eq_ink {value written : String} (empty : written = "" ↔ value = "") :
    p.put (.value indent value written) = p.ink indent (written.toList.map .value) := by
  by_cases h : value = ""
  · rw [empty.2 h, put, if_pos (String.isEmpty_iff.2 h)]
    exact ink_nil.symm
  · have some : written.toList.map Ink.value ≠ [] := by
      simpa using fun none => h (empty.1 none)
    have quiet : ∀ ink ∈ written.toList.map Ink.value, ink.endsLine = false := by
      intro ink mem
      obtain ⟨c, -, rfl⟩ := List.mem_map.1 mem
      rfl
    rw [put, if_neg fun none => h (String.isEmpty_iff.1 none),
      ink_line some fun ink mem => quiet ink (List.dropLast_subset _ mem),
      quiet _ (List.getLast_mem some), Ink.map_char_value, String.ofList_toList]

end Page

/-- A piece that is written where no indent is in force. It shows nothing only for an empty value. -/
def Write.Flush : Write → Prop
  | .openLine => False
  | .text indent _ => indent = ""
  | .value indent shown written => indent = "" ∧ (written = "" ↔ shown = "")

section Layout
variable {writes : List Write} (flush : ∀ write ∈ writes, write.Flush)
include flush

theorem text_layout_flush :
    (layout writes).text = String.ofList ((inksOf writes).map Ink.char) := by
  induction writes with
  | nil => rfl
  | cons write older ih =>
    obtain ⟨first, others⟩ := List.forall_mem_cons.1 flush
    rw [layout_cons, inksOf_cons, List.map_append, String.ofList_append, ← ih others]
    cases write with
    | openLine => cases first
    | text indent words =>
      obtain rfl : indent = "" := first
      rw [Page.text_put_text, Write.inks, Page.ink]
      exact congrArg (_ ++ String.ofList ·) Ink.lay_flush
    | value indent shown written =>
      obtain ⟨rfl, empty⟩ := first
      rw [Page.put_value_eq_ink empty, Write.inks, Page.ink]
      exact congrArg (_ ++ String.ofList ·) Ink.lay_flush

/-- One indent further in, the characters are laid out with the indent as their margin. -/
theorem layout_shift_flush {margin : String} (indented : margin ≠ "") :
    layout (writes.map (.shift margin)) = Page.blank.ink margin (inksOf writes) := by
  induction writes with
  | nil => exact Page.ink_nil.symm
  | cons write older ih =>
    obtain ⟨first, others⟩ := List.forall_mem_cons.1 flush
    rw [List.map_cons, layout_cons, ih others, inksOf_cons, Page.ink_append]
    cases write with
    | openLine => cases first
    | text indent words =>
      obtain rfl : indent = "" := first
      rw [Write.shift, String.append_empty]
      exact Page.put_text_eq_ink indented words
    | value indent shown written =>
      obtain ⟨rfl, empty⟩ := first
      rw [Write.shift, String.append_empty]
      exact Page.put_value_eq_ink empty

end Layout

theorem layout_opened (writes : List Write) : layout (writes ++ [.openLine]) = layout writes := by
  induction writes with
  | nil => rfl
  | cons write older ih => rw [List.cons_append, layout_cons, layout_cons, ih]

/-- The pieces of one render, a margin further in, are the page of the other. -/
theorem RenderState.Shifted.layout_eq {σ : Type} {margin : String} {s s' : RenderState σ}
    (h : s.Shifted margin s') : layout s'.writes = layout (s.writes.map (.shift margin)) := by
  rcases h.writes with writes | writes
  · rw [writes]
  · rw [writes, layout_opened]

theorem shown_eq_empty_iff {escaped : Bool} {text : String} :
    Render.shown escaped text = "" ↔ text = "" := by
  cases escaped with
  | false => exact Iff.rfl
  | true => exact Text.escapeHtml_eq_empty_iff

/-- Without an indent anywhere, every piece is flush. -/
theorem upholds_flush {loader : Loader} {root : List Node} (p : Value → Prop)
    (flat : ∀ i, loader.Supplies root (.inclusion i) → i.indent = "") :
    Render.Upholds loader root p (· = "") fun _ writes => ∀ write ∈ writes, write.Flush where
  text none _ before := List.forall_mem_cons.2 ⟨none, before⟩
  value none _ _ _ before := List.forall_mem_cons.2 ⟨⟨none, shown_eq_empty_iff⟩, before⟩
  opened _ supplied indented _ := absurd (flat _ supplied) indented
  behind inside := inside
  inside none supplied := by rw [none, flat _ supplied, String.append_empty]

/-- A partial under an indent, of which no partial further in has one: it ends as without the indent,
and the output is the one without it, with the indent in front of the first character written, and of
the first one behind each newline that template text has. A newline inside of a value makes no
difference. -/
theorem Renderer.accept_indented {σ : Type} (setup : Setup σ) {data : Value}
    (free : data.LambdaFree) (root : Option String) (host : σ) (i : Inclusion)
    (indented : i.indent ≠ "") {t : Template} (target : setup.loader.target? i = some t)
    (flat : ∀ inner, setup.loader.Supplies t.nodes (.inclusion inner) → inner.indent = "") :
    let plain := (fresh setup data root host).accept [.inclusion { i with indent := "" }]
    let shifted := (fresh setup data root host).accept [.inclusion i]
    shifted.1 = plain.1 ∧
      plain.2.output.toList = plain.2.state.inks.map Ink.char ∧
      shifted.2.output.toList = Ink.lay i.indent.toList true plain.2.state.inks := by
  intro plain shifted
  obtain ⟨result, same⟩ := accept_shifted setup free root host i indented
  have flush : ∀ write ∈ plain.2.state.writes, write.Flush := by
    refine upholds_accept (upholds_flush _ ?_) Value.closed_lambdaFree free root host rfl nofun
    exact Loader.Supplies.of_flush (p := (· = "")) rfl target flat
  refine ⟨result, ?_, ?_⟩
  · rw [Renderer.output, RenderState.output, text_layout_flush flush, String.toList_ofList]
    rfl
  · rw [Renderer.output, RenderState.output, same.layout_eq, layout_shift_flush flush indented]
    exact Page.toList_ink_blank _ _

/-- The items of a list, and a line at the end. -/
def agenda : Template :=
  ⟨some "agenda", "", [.sect (.ofChildren "items" false
    [.text "- ", .interpolation "." true, .text "\n"]), .text "end"]⟩

theorem agenda_partialFree : Node.Everywhere Node.PartialFree agenda.nodes := by
  simp [agenda, Node.everywhere_cons, Node.everywhere_nil, Node.parts, Node.PartialFree,
    Section.ofChildren]

/-- An item of two lines and an empty one. -/
theorem Renderer.accept_agenda :
    let setup : Setup ScriptedState :=
      ⟨.standard, Catalog.load [("agenda", agenda)], scriptedHost [] false⟩
    let data := Value.map [("items", .list [.str "x\ny", .str ""])]
    let shifted := (fresh setup data none .start).accept [.inclusion ⟨"agenda", "  ", none⟩]
    shifted.1 = .ok () ∧ shifted.2.output.toList = "  - x\ny\n  - \n  end".toList := by
  intro setup data shifted
  have free : data.LambdaFree := by
    simp [data, Value.LambdaFree, Value.LambdaFreeEntries, Value.LambdaFreeItems]
  have target : setup.loader.target? ⟨"agenda", "  ", none⟩ = some agenda := rfl
  obtain ⟨result, -, output⟩ := accept_indented setup free none .start ⟨"agenda", "  ", none⟩
    (by decide) target fun _ supplied => False.elim (supplied.partialFree agenda_partialFree)
  refine ⟨result.trans ?_, output.trans ?_⟩
  · decide +kernel
  · decide +kernel

end Mustache
