import Mustache.Node.Equality
import Mustache.Proofs.Render.Indented
import Mustache.Proofs.Text.Numerals

/-! Indents that add up. Partials further in may have indents of their own, and no value has a
newline. Then the indent of the outermost partial stands in front of every line of the output. A line
begins behind a newline, and wherever a partial further in is entered that has an indent. -/
namespace Mustache

namespace Ink
variable {margin : List Char}

theorem lay_fresh {inks : List Ink} (some : inks ≠ []) :
    lay margin true inks = margin ++ lay margin false inks := by
  cases inks with
  | nil => exact absurd rfl some
  | cons ink rest => rfl

/-- The margin comes in front of every line. -/
theorem lay_text (cs : List Char) :
    lay margin true (cs.map text) = (Text.lines cs).flatMap (margin ++ ·) := by
  induction cs with
  | nil => rfl
  | cons c rest ih =>
    rw [List.map_cons, lay, Text.lines]
    by_cases newline : c = '\n'
    · rw [if_pos newline, List.flatMap_cons, ← ih, newline]
      simp only [if_true, char, List.append_assoc, List.singleton_append]
      rfl
    · have same : (text c).endsLine = false := beq_false_of_ne newline
      rw [if_neg newline, same]
      cases further : Text.lines rest with
      | nil =>
        have none : rest = [] := by
          rw [← Text.lines_flatten rest, further]
          rfl
        simp [none, lay, char]
      | cons line others =>
        have some : rest.map text ≠ [] := by
          rintro none
          rw [List.map_eq_nil_iff.1 none] at further
          cases further
        rw [further, lay_fresh some, List.flatMap_cons, List.append_assoc] at ih
        rw [List.append_cancel_left ih]
        simp [char]

end Ink

namespace Page
variable {margin indent : String} {p q : Page}

/-- The page on which the same text stands line by line behind a margin. -/
def margined (margin : String) (p : Page) : Page := blank.ink margin (p.text.toList.map .text)

theorem margined_append {cs : List Char} (h : p.text = q.text ++ String.ofList cs) :
    p.margined margin = (q.margined margin).ink margin (cs.map .text) := by
  rw [margined, h, String.toList_append, String.toList_ofList, List.map_append, ink_append]
  rfl

/-- A line under an indent, one margin further in. -/
theorem putLine_margin {cs : List Char} (some : cs ≠ []) (line : '\n' ∉ cs.dropLast)
    (quiet : '\n' ∉ indent.toList) :
    putLine (margin ++ indent) q cs =
      q.ink margin (((if q.lineStart then indent.toList else []) ++ cs).map .text) := by
  have lead : '\n' ∉ (if q.lineStart then indent.toList else []) := by
    split
    · exact quiet
    · exact List.not_mem_nil
  have inside : '\n' ∉ ((if q.lineStart then indent.toList else []) ++ cs).dropLast := by
    rw [List.dropLast_append_of_ne_nil some, List.mem_append, not_or]
    exact ⟨lead, line⟩
  rw [← putLine_eq_ink (by simp [some]) inside, putLine, putLine,
    List.getLast?_append_of_ne_nil _ some]
  congr 1
  unfold opened
  cases q.lineStart <;> simp [String.append_assoc]

/-- The second page is the first one behind a margin. Where an indent is in force, both know alike
whether a line begins. -/
structure Margined (margin indent : String) (p q : Page) : Prop where
  page : q = p.margined margin
  level (inner : indent ≠ "") : p.lineStart = q.lineStart

theorem Margined.opened (h : Margined margin indent p q) :
    p.opened indent = p.text ++ String.ofList (if q.lineStart then indent.toList else []) := by
  unfold Page.opened
  by_cases none : indent = ""
  · simp [none]
  · rw [h.level none]
    cases q.lineStart <;> simp

theorem Margined.put_line (h : Margined margin indent p q) (quiet : '\n' ∉ indent.toList)
    {cs : List Char} (some : cs ≠ []) (line : '\n' ∉ cs.dropLast) :
    Margined margin indent (putLine indent p cs) (putLine (margin ++ indent) q cs) := by
  refine ⟨?_, fun _ => rfl⟩
  have text : (putLine indent p cs).text =
      p.text ++ String.ofList ((if q.lineStart then indent.toList else []) ++ cs) := by
    rw [String.ofList_append, ← String.append_assoc, ← h.opened]
    rfl
  rw [putLine_margin some line quiet, margined_append text, ← h.page]

theorem Margined.put_lines (h : Margined margin indent p q) (quiet : '\n' ∉ indent.toList)
    {lines : List (List Char)} (each : ∀ line ∈ lines, line ≠ [] ∧ '\n' ∉ line.dropLast) :
    Margined margin indent (lines.foldl (putLine indent) p)
      (lines.foldl (putLine (margin ++ indent)) q) := by
  induction lines generalizing p q with
  | nil => exact h
  | cons line rest ih =>
    obtain ⟨⟨some, inside⟩, others⟩ := List.forall_mem_cons.1 each
    exact ih (h.put_line quiet some inside) others

/-- Where no indent is in force, only the page behind the margin is laid out. -/
theorem Margined.put_text (indented : margin ≠ "") (h : Margined margin indent p q)
    (quiet : '\n' ∉ indent.toList) (words : String) :
    Margined margin indent (p.put (.text indent words)) (q.put (.text (margin ++ indent) words)) := by
  by_cases none : indent = ""
  · refine ⟨?_, fun inner => absurd none inner⟩
    have text : (p.put (.text indent words)).text = p.text ++ String.ofList words.toList := by
      rw [none, String.ofList_toList]
      rfl
    rw [margined_append text, ← h.page, none, String.append_empty]
    exact put_text_eq_ink indented words
  · have here : indent.isEmpty = false := by simpa using none
    have there : (margin ++ indent).isEmpty = false := by simp [none]
    simp only [put, here, there, Bool.false_eq_true, if_false]
    refine h.put_lines quiet fun line mem => ?_
    exact ⟨Text.ne_nil_of_mem_lines mem, Text.newline_not_mem_dropLast mem⟩

/-- A value without a newline is a line that lacks its newline. -/
theorem put_value_eq_putLine {value written : String} (some : value ≠ "")
    (line : '\n' ∉ written.toList) :
    p.put (.value indent value written) = putLine indent p written.toList := by
  have last : (written.toList.getLast? == Option.some '\n') = false :=
    beq_false_of_ne fun newline => line (List.mem_of_getLast? newline)
  rw [put, if_neg fun none => some (String.isEmpty_iff.1 none), putLine, last,
    String.ofList_toList]

theorem Margined.put_value (h : Margined margin indent p q) (quiet : '\n' ∉ indent.toList)
    {value written : String} (line : '\n' ∉ written.toList) (empty : written = "" ↔ value = "") :
    Margined margin indent (p.put (.value indent value written))
      (q.put (.value (margin ++ indent) value written)) := by
  by_cases none : value = ""
  · have shown : value.isEmpty = true := String.isEmpty_iff.2 none
    rw [put, put, if_pos shown, if_pos shown]
    exact h
  · rw [put_value_eq_putLine none line, put_value_eq_putLine none line]
    have some : written.toList ≠ [] := fun nil => none (empty.1 (String.toList_eq_nil_iff.1 nil))
    exact h.put_line quiet some fun mem => line (List.dropLast_subset _ mem)

end Page

/-- The pieces written since a line was last opened, and those written between each time that one was
opened and the next, newest first. -/
def strips : List Write → List Write × List (List Write)
  | [] => ([], [])
  | .openLine :: older => ([], (strips older).1 :: (strips older).2)
  | write :: older => (write :: (strips older).1, (strips older).2)

/-- The texts of strips, in order. -/
def stripTexts (strips : List (List Write)) : List (List Char) :=
  strips.reverse.map fun strip => (layout strip).text.toList

/-- The text written so far, cut wherever a line was opened. -/
def RenderState.stretches {σ : Type} (s : RenderState σ) : List (List Char) :=
  stripTexts ((strips s.writes).1 :: (strips s.writes).2)

theorem stripTexts_cons (strip : List Write) (others : List (List Write)) :
    stripTexts (strip :: others) = stripTexts others ++ [(layout strip).text.toList] := by
  simp [stripTexts]

/-- What stands on a page does not matter to what comes behind a line that is opened. -/
theorem layout_strips (writes : List Write) :
    layout writes =
      (layout (strips writes).1).behind (String.ofList (stripTexts (strips writes).2).flatten) := by
  induction writes with
  | nil => rfl
  | cons write older ih =>
    rw [layout_cons, ih, Page.put_behind]
    cases write with
    | text | value => rfl
    | openLine =>
      simp only [strips, stripTexts_cons, List.flatten_append, List.flatten_singleton,
        String.ofList_append, String.ofList_toList]
      simp only [Page.behind, Page.put, layout_nil, Page.blank, String.append_empty]

theorem text_layout_strips (writes : List Write) :
    (layout writes).text.toList =
      (stripTexts ((strips writes).1 :: (strips writes).2)).flatten := by
  rw [layout_strips, stripTexts_cons, List.flatten_append, List.flatten_singleton]
  simp [Page.behind]

theorem strips_shift (margin : String) (writes : List Write) :
    strips (writes.map (.shift margin)) = ((strips writes).1.map (.shift margin),
      (strips writes).2.map (List.map (.shift margin))) := by
  induction writes with
  | nil => rfl
  | cons write older ih =>
    cases write with
    | openLine | text | value => simp only [List.map_cons, Write.shift, strips, ih, List.map_nil]

/-- Strips that come to their texts behind a margin. -/
theorem flatten_stripTexts_shift {margin : String} {strips : List (List Write)}
    (shifted : ∀ strip ∈ strips,
      layout (strip.map (.shift margin)) = (layout strip).margined margin) :
    (stripTexts (strips.map (List.map (.shift margin)))).flatten =
      (stripTexts strips).flatMap fun stretch =>
        (Text.lines stretch).flatMap (margin.toList ++ ·) := by
  induction strips with
  | nil => rfl
  | cons strip others ih =>
    obtain ⟨page, further⟩ := List.forall_mem_cons.1 shifted
    rw [List.map_cons, stripTexts_cons, stripTexts_cons, List.flatten_append, List.flatMap_append,
      ih further, page, Page.margined, Page.toList_ink_blank, Ink.lay_text]
    simp

/-- Every strip comes to its text behind a margin, one indent further in. -/
structure Lined (margin indent : String) (writes : List Write) : Prop where
  latest : Page.Margined margin indent (layout (strips writes).1)
    (layout ((strips writes).1.map (.shift margin)))
  earlier : ∀ strip ∈ (strips writes).2,
    layout (strip.map (.shift margin)) = (layout strip).margined margin

namespace Lined
variable {margin indent : String} {writes : List Write}

theorem nil : Lined margin "" [] where
  latest := ⟨Page.ink_nil.symm, fun inner => absurd rfl inner⟩
  earlier := nofun

/-- A new strip begins on both pages. -/
theorem openLine (h : Lined margin indent writes) (inner : String) :
    Lined margin inner (.openLine :: writes) where
  latest := ⟨Page.ink_nil.symm, fun _ => rfl⟩
  earlier := List.forall_mem_cons.2 ⟨h.latest.page, h.earlier⟩

theorem behind {inner : String} (h : Lined margin (indent ++ inner) writes) :
    Lined margin indent writes := by
  refine ⟨⟨h.latest.page, fun some => h.latest.level ?_⟩, h.earlier⟩
  exact fun none => some (String.append_eq_empty_iff.1 none).1

/-- The margin comes in front of every line of each strip. -/
theorem text (h : Lined margin indent writes) :
    (layout (writes.map (.shift margin))).text.toList =
      (stripTexts ((strips writes).1 :: (strips writes).2)).flatMap fun stretch =>
        (Text.lines stretch).flatMap (margin.toList ++ ·) := by
  rw [text_layout_strips, strips_shift]
  have shifted : ∀ strip ∈ (strips writes).1 :: (strips writes).2,
      layout (strip.map (.shift margin)) = (layout strip).margined margin :=
    List.forall_mem_cons.2 ⟨h.latest.page, h.earlier⟩
  exact flatten_stripTexts_shift shifted

end Lined

/-- Every piece that a render writes comes to the same line by line behind the margin. -/
theorem upholds_lined {loader : Loader} {root : List Node} {margin : String}
    (indented : margin ≠ "") {p : Value → Prop} (oneLine : ∀ s, p (.str s) → '\n' ∉ s.toList)
    (quiet : ∀ i, loader.Supplies root (.inclusion i) → '\n' ∉ i.indent.toList) :
    Render.Upholds loader root p (fun indent => '\n' ∉ indent.toList) (Lined margin) where
  text line _ before := ⟨before.latest.put_text indented line _, before.earlier⟩
  value {i name text escaped x writes} line _ holds shows before := by
    have plain := Value.newline_not_mem_text shows fun s same => oneLine s (same ▸ holds)
    have written : '\n' ∉ (Render.shown escaped text).toList := by
      cases escaped with
      | false => exact plain
      | true => exact Text.newline_not_mem_escapeHtml plain
    exact ⟨before.latest.put_value line written shown_eq_empty_iff, before.earlier⟩
  opened _ _ _ before := before.openLine _
  behind inside := inside.behind
  inside line supplied := by
    rw [String.toList_append, List.mem_append, not_or]
    exact ⟨line, quiet _ supplied⟩

theorem Inclusion.flush_eq {i : Inclusion} (none : i.indent = "") : { i with indent := "" } = i := by
  cases i with
  | mk name indent target =>
    obtain rfl : indent = "" := none
    rfl

/-- The output under an indent that is not empty. -/
theorem Renderer.output_lined {σ : Type} (setup : Setup σ) {data : Value} (free : data.LambdaFree)
    (oneLine : ∀ s, data.Contains (.str s) → '\n' ∉ s.toList) (root : Option String) (host : σ)
    {i : Inclusion} (indented : i.indent ≠ "") {t : Template}
    (target : setup.loader.target? i = some t)
    (quiet : ∀ inner, setup.loader.Supplies t.nodes (.inclusion inner) →
      '\n' ∉ inner.indent.toList) :
    let plain := (fresh setup data root host).accept [.inclusion { i with indent := "" }]
    ((fresh setup data root host).accept [.inclusion i]).2.output.toList =
      plain.2.state.stretches.flatMap fun stretch =>
        (Text.lines stretch).flatMap (i.indent.toList ++ ·) := by
  intro plain
  have shifted := (accept_shifted setup free root host i indented).2
  have lined : Lined i.indent "" plain.2.state.writes := by
    refine upholds_accept (upholds_lined indented oneLine ?_) (Value.closed_contains free) .self root
      host List.not_mem_nil .nil
    exact Loader.Supplies.of_flush (p := fun indent => '\n' ∉ indent.toList) List.not_mem_nil target
      quiet
  rw [Renderer.output, RenderState.output, shifted.layout_eq]
  exact lined.text

/-- Indents that add up: where a partial under an indent succeeds, so does its template without it,
and the output is that of the template with the indent in front of every line, and nowhere else. A
line ends with a newline, and also where a partial further in is entered that has an indent. If each
of these is entered where a line begins, or nothing is written from there on, then the lines are
those of the output. No string of the data has a newline, nor has the indent of a partial further
in. -/
theorem Renderer.accept_lined {σ : Type} (setup : Setup σ) {data : Value}
    (free : data.LambdaFree) (oneLine : ∀ s, data.Contains (.str s) → '\n' ∉ s.toList)
    (root : Option String) (host : σ) (i : Inclusion) {t : Template}
    (target : setup.loader.target? i = some t)
    (quiet : ∀ inner, setup.loader.Supplies t.nodes (.inclusion inner) →
      '\n' ∉ inner.indent.toList) :
    let whole := (fresh setup data root host).accept t.nodes
    let shifted := (fresh setup data root host).accept [.inclusion i]
    let stretches := whole.2.state.stretches
    shifted.1 = .ok () →
      whole.1 = .ok () ∧ whole.2.output.toList = stretches.flatten ∧
        shifted.2.output.toList = (stretches.flatMap Text.lines).flatMap (i.indent.toList ++ ·) ∧
        (Text.Aligned stretches → shifted.2.output.toList =
          (Text.lines whole.2.output.toList).flatMap (i.indent.toList ++ ·)) := by
  intro whole shifted stretches ok
  let plain := (fresh setup data root host).accept [.inclusion { i with indent := "" }]
  have plain_ok : plain.1 = .ok () := by
    by_cases none : i.indent = ""
    · simp only [plain, Inclusion.flush_eq none]
      exact ok
    · exact (accept_shifted setup free root host i none).1.symm.trans ok
  have setup_eq : (fresh setup data root host).setup = setup := by rw [fresh_eq]
  have known : setup.loader.target? { i with indent := "" } = some t := target
  obtain ⟨succeeds, writes⟩ := accept_inline _ rfl (setup_eq.symm ▸ known) plain_ok
  have whole_text : whole.2.output.toList = stretches.flatten := text_layout_strips _
  have same : stretches = plain.2.state.stretches := by
    simp only [stretches, RenderState.stretches, whole, plain, writes]
  have shifted_text : shifted.2.output.toList =
      (stretches.flatMap Text.lines).flatMap (i.indent.toList ++ ·) := by
    by_cases none : i.indent = ""
    · have flat : i.indent.toList = [] := String.toList_eq_nil_iff.2 none
      rw [Inclusion.flush_eq none] at writes
      rw [flat, Text.flatMap_lines_flush, ← whole_text, Renderer.output, Renderer.output,
        RenderState.output, RenderState.output, writes]
    · rw [List.flatMap_assoc, same]
      exact output_lined setup free oneLine root host none target quiet
  refine ⟨succeeds, whole_text, shifted_text, fun aligned => ?_⟩
  rw [shifted_text, whole_text, aligned.lines_flatten]

/-- Text around a partial that is set off, and a partial that is set off twice. -/
def outline : Catalog :=
  [("inner", ⟨some "inner", "x\n\x7b\x7b.\x7d\x7d\n",
      [.text "x\n", .interpolation "." true, .text "\n"]⟩),
    ("item", ⟨some "item", "a", [.text "a"]⟩),
    ("outer", ⟨some "outer", "a\n\n  \x7b\x7b>inner\x7d\x7d\nb\n",
      [.text "a\n\n", .inclusion ⟨"inner", "  ", none⟩, .text "b\n"]⟩),
    ("pair", ⟨some "pair", "  \x7b\x7b>item\x7d\x7d\n  \x7b\x7b>item\x7d\x7d\n",
      [.inclusion ⟨"item", "  ", none⟩, .inclusion ⟨"item", "  ", none⟩]⟩)]

theorem parsed_outline {name : String} {t : Template} (found : outline.load name = some t) :
    t.Parsed := by
  have each : ∀ entry ∈ outline,
      Template.parse entry.2.source = .ok ⟨none, entry.2.source, entry.2.nodes⟩ := by
    decide +kernel
  exact ⟨_, _, _, each _ (Entries.mem_of_get? found), rfl⟩

theorem quiet_outline {t : Template} (parsed : t.Parsed) {inner : Inclusion}
    (supplied : outline.load.Supplies t.nodes (.inclusion inner)) :
    '\n' ∉ inner.indent.toList := by
  have blank := supplied.blank parsed fun _ _ found => parsed_outline found
  exact fun mem => absurd (List.all_eq_true.1 blank _ mem) (by decide)

/-- A string holds only itself. -/
theorem Value.eq_of_contains_str {s : String} {v : Value} (h : (Value.str s).Contains v) :
    v = .str s := by
  induction h with
  | self => rfl
  | member _ hm ih =>
    rw [ih] at hm
    cases hm
  | item _ _ ih => cases ih

theorem oneLine_str {s t : String} (line : '\n' ∉ s.toList)
    (inside : (Value.str s).Contains (.str t)) : '\n' ∉ t.toList := by
  obtain rfl := Value.str.inj (Value.eq_of_contains_str inside)
  exact line

theorem Renderer.accept_outer :
    let setup : Setup ScriptedState := ⟨.standard, outline.load, scriptedHost [] false⟩
    let shifted := (fresh setup (.str "z") none .start).accept [.inclusion ⟨"outer", "  ", none⟩]
    shifted.1 = .ok () ∧ shifted.2.output.toList = "  a\n  \n    x\n    z\n  b\n".toList := by
  intro setup shifted
  have target : setup.loader.target? ⟨"outer", "  ", none⟩ = outline.load "outer" := rfl
  have ok : shifted.1 = .ok () := by decide +kernel
  obtain ⟨-, -, -, output⟩ := accept_lined setup (by trivial) (fun _ => oneLine_str (by decide)) none
    .start ⟨"outer", "  ", none⟩ target (fun _ => quiet_outline (@parsed_outline "outer" _ rfl)) ok
  exact ⟨ok, (output (by decide +kernel)).trans (by decide +kernel)⟩

/-- Of two indented partials on one line the second is entered where no line begins. It gets the
indent nevertheless: a line of its own template begins there. -/
theorem Renderer.accept_pair :
    let setup : Setup ScriptedState := ⟨.standard, outline.load, scriptedHost [] false⟩
    let data := Value.str "z"
    let pair := [Node.inclusion ⟨"item", "  ", none⟩, .inclusion ⟨"item", "  ", none⟩]
    let whole := (fresh setup data none .start).accept pair
    let shifted := (fresh setup data none .start).accept [.inclusion ⟨"pair", "\t", none⟩]
    data.LambdaFree ∧ (∀ s, data.Contains (.str s) → '\n' ∉ s.toList) ∧
      (setup.loader.target? ⟨"pair", "\t", none⟩).map Template.nodes = some pair ∧
      (∀ inner, setup.loader.Supplies pair (.inclusion inner) →
        inner.indent.toList.all Text.isBlank) ∧
      shifted.1 = .ok () ∧ whole.2.output = "  a  a" ∧ shifted.2.output = "\t  a\t  a" ∧
      shifted.2.output.toList ≠ (Text.lines whole.2.output.toList).flatMap ("\t".toList ++ ·) := by
  intro setup data pair whole shifted
  have output : whole.2.output = "  a  a" := by decide +kernel
  have indented : shifted.2.output = "\t  a\t  a" := by decide +kernel
  have blank (inner : Inclusion) (supplied : setup.loader.Supplies pair (.inclusion inner)) :
      inner.indent.toList.all Text.isBlank :=
    Loader.Supplies.blank supplied (@parsed_outline "pair" _ rfl) fun _ _ found =>
      parsed_outline found
  refine ⟨by trivial, fun _ => oneLine_str (by decide), rfl, blank, by decide +kernel, output,
    indented, ?_⟩
  rw [output, indented]
  decide

end Mustache
