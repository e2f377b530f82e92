import Mustache.Proofs.Reading.InPlace
import Mustache.Proofs.Reading.Marks
import Mustache.Proofs.Reading.Run

/-! A reader that has come to where a cursor is: at an offset between two characters, on a line that
begins in the source. It looks for marks, moves on and points at errors as the cursor does. -/
namespace Mustache

namespace Text
variable {cs : List Char} {n : Nat}

theorem length_le_byteLength (cs : List Char) : cs.length ≤ byteLength cs := by
  induction cs with
  | nil => exact Nat.le_refl 0
  | cons c rest ih =>
    have size := c.utf8Size_pos
    rw [List.length_cons, byteLength_cons]
    omega

theorem byteLength_reverse (cs : List Char) : byteLength cs.reverse = byteLength cs := by
  induction cs with
  | nil => rfl
  | cons c rest ih =>
    rw [List.reverse_cons, byteLength_append, ih, byteLength_cons, byteLength_cons, byteLength_nil]
    omega

theorem byteLength_of_ascii (h : ∀ c ∈ cs, c.utf8Size = 1) : byteLength cs = cs.length := by
  induction cs with
  | nil => rfl
  | cons c rest ih =>
    rw [byteLength_cons, h c List.mem_cons_self, ih fun c mem => h c (List.mem_cons_of_mem _ mem),
      List.length_cons, Nat.add_comm]

/-- The blanks at the end of a line, and the line end, are of one byte each. -/
theorem byteLength_lineEnd (h : Cursor.lineEnd? cs = some n) : byteLength (cs.take n) = n := by
  obtain ⟨blanks, ending, tail, rfl, blank, ends, rfl⟩ := lineEnd?_eq_some_iff.1 h
  rw [List.take_left]
  refine byteLength_of_ascii fun c mem => ?_
  rcases List.mem_append.1 mem with mem | mem
  · have either := List.all_eq_true.1 blank c mem
    simp only [isBlank, Bool.or_eq_true, beq_iff_eq] at either
    rcases either with rfl | rfl <;> rfl
  · cases ends <;> simp at mem
    · exact mem ▸ rfl
    · rcases mem with rfl | rfl <;> rfl

/-- In the last line of a text nothing is looked for further to the left. -/
theorem dropWhile_reverse_line {front line : List Char} (h : BeginsLine front)
    (single : '\n' ∉ line) :
    (front ++ line).reverse.dropWhile (· != '\n') = front.reverse := by
  rw [List.reverse_append, List.dropWhile_append_of_pos]
  · rcases h with rfl | last
    · rfl
    · obtain ⟨before, rfl⟩ := List.getLast?_eq_some_iff.1 last
      simp
  · intro c mem
    have other : c ≠ '\n' := fun e => single (e ▸ List.mem_reverse.1 mem)
    simpa using other

end Text

/-- The mark of the kind of a tag is of one byte, if there is one. -/
theorem Sigil.byteLength_mark (d : Delimiters) (cs : List Char) :
    Text.byteLength (cs.take (ofRest d cs).2.1) = (ofRest d cs).2.1 := by
  cases cs with
  | nil => rfl
  | cons c tail =>
    unfold ofRest
    dsimp only
    split
    · rename_i triple
      rw [triple.2]
      rfl
    · split
      · rename_i kind
        unfold ofChar? at kind
        split at kind <;> first | rfl | cases kind
      · rfl

namespace Position
variable {p : Position}

/-- The line begins in the source. -/
def Placed (p : Position) : Prop := 1 ≤ p.column ∧ p.column ≤ p.offset + 1

theorem Placed.next (h : p.Placed) (c : Char) : (p.next c).Placed := by
  obtain ⟨low, high⟩ := h
  unfold Placed Position.next
  split <;> dsimp only <;> omega

theorem Placed.advance (h : p.Placed) (text : List Char) : (p.advance text).Placed := by
  induction text generalizing p with
  | nil => exact h
  | cons c rest ih => exact ih (h.next c)

end Position

namespace Cursor.Passes
variable {source : String} {d : ValidDelimiters} {before : List Char} {c : Cursor}

theorem placed (h : (ofSource source d).Passes before c) : c.place.Placed := by
  rw [h.place]
  exact .advance ⟨Nat.le_refl 1, Nat.le_refl 1⟩ before

theorem skip (h : (ofSource source d).Passes before c) (n : Nat) :
    (ofSource source d).Passes (before ++ c.rest.take n) (c.skip n) :=
  h.trans (c.passes_skip n)

/-- The place where the line begins. -/
theorem line (h : (ofSource source d).Passes before c) :
    ∃ front, before = front ++ c.margin.reverse ∧ Text.BeginsLine front ∧
      '\n' ∉ c.margin.reverse ∧ c.place.column = 1 + Text.byteLength c.margin.reverse := by
  obtain ⟨front, line, rfl, begins, single⟩ := Text.exists_beginsLine before
  have margin : c.margin = line.reverse :=
    h.margin.trans (Text.foldl_widen_beginsLine begins single)
  rw [margin, List.reverse_reverse]
  refine ⟨front, rfl, begins, single, ?_⟩
  rw [h.place]
  exact Position.column_beginsLine begins single

end Cursor.Passes

namespace Reader
variable {source : String} {d : ValidDelimiters} {before : List Char} {c : Cursor}

/-- A reader at a place. -/
def ofPosition (p : Position) (d : Delimiters) : Reader :=
  ⟨p.offset, p.line, p.offset + 1 - p.column, d⟩

/-- A reader that has come to where a cursor is. -/
def ofCursor (c : Cursor) : Reader := ofPosition c.place c.delimiters.val

@[simp] theorem pos_ofCursor (c : Cursor) : (ofCursor c).pos = c.place.offset := rfl

@[simp] theorem delimiters_ofCursor (c : Cursor) :
    (ofCursor c).delimiters = c.delimiters.val := rfl

theorem foldl_pass {p : Position} (h : p.Placed) (d : Delimiters) (text : List Char) :
    text.foldl pass (ofPosition p d) = ofPosition (p.advance text) d := by
  induction text generalizing p with
  | nil => rfl
  | cons c rest ih =>
    have step : pass (ofPosition p d) c = ofPosition (p.next c) d := by
      obtain ⟨low, high⟩ := h
      unfold pass ofPosition Position.next
      split
      · simp
      · have same :
            p.offset + c.utf8Size + 1 - (p.column + c.utf8Size) = p.offset + 1 - p.column := by
          omega
        simp only [same]
    rw [List.foldl_cons, step, ih (h.next c), Position.advance_cons]

theorem errorHere_eq (h : c.place.Placed) (kind : ParseErrorKind) :
    (ofCursor c).errorHere kind = .at c.place kind := by
  obtain ⟨low, high⟩ := h
  have column : c.place.offset - (c.place.offset + 1 - c.place.column) + 1 = c.place.column := by
    omega
  simp only [errorHere, ofCursor, ofPosition, ParseError.at, column]

section Passed
variable (h : (Cursor.ofSource source d).Passes before c)
include h

theorem rest_eq : (ofCursor c).rest source.toList = c.rest := by
  change (Text.dropBytes? c.place.offset source.toList).getD [] = _
  rw [h.offset, h.whole, Text.dropBytes?_append]
  rfl

theorem errorAt_eq (kind : ParseErrorKind) :
    errorAt source.toList c.place.offset kind = .at c.place kind := by
  obtain ⟨front, split, begins, single, column⟩ := h.line
  have lines : c.place.line = 1 + before.count '\n' := by
    rw [h.place]
    exact Position.line_advance .start before
  simp only [errorAt, h.offset, h.whole, Text.takeBytes?_append, Option.getD_some]
  rw [ParseError.at, column, lines, Nat.add_comm 1, Nat.add_comm 1, split,
    Text.dropWhile_reverse_line begins single, Text.byteLength_reverse, Text.byteLength_append,
    Nat.add_sub_cancel_left]

/-- Moving on over a text goes where the cursor goes. -/
theorem advanceTo_eq (n : Nat) :
    (ofCursor c).advanceTo source.toList (c.skip n).place.offset = ofCursor (c.skip n) := by
  have whole : source.toList = before ++ c.rest.take n ++ c.rest.drop n := (h.skip n).whole
  have stop : (c.skip n).place.offset =
      Text.byteLength before + Text.byteLength (c.rest.take n) := by
    rw [(h.skip n).offset, Text.byteLength_append]
  have within : min (c.skip n).place.offset (Text.byteLength source.toList) =
      (c.skip n).place.offset := by
    rw [stop, whole, Text.byteLength_append, Text.byteLength_append]
    omega
  have skipped : Text.slice? c.place.offset (c.skip n).place.offset source.toList =
      some (c.rest.take n) := by
    rw [h.offset, stop, whole, Text.slice?_append]
  simp only [advanceTo, within, pos_ofCursor, skipped, Option.getD_some]
  rw [ofCursor, foldl_pass h.placed]
  rfl

theorem advanceBy_eq (n : Nat) : (ofCursor c).advanceBy source.toList
    (Text.byteLength (c.rest.take n)) = ofCursor (c.skip n) := by
  rw [← advanceTo_eq h, Cursor.skip, Position.offset_advance]
  rfl

theorem advanceToEnd_eq :
    (ofCursor c).advanceToEnd source.toList = ofCursor (c.skip c.rest.length) := by
  have all : Text.byteLength source.toList = (c.skip c.rest.length).place.offset := by
    rw [(h.skip _).offset, h.whole, List.take_length]
  unfold advanceToEnd
  rw [all, advanceTo_eq h]

theorem takeUntil_eq (close : List Char) : takeUntil source.toList close (ofCursor c) =
    match Text.occurrence? close c.rest with
    | none => .error (.at (c.skip c.rest.length).place (.endBefore (String.ofList close)))
      (ofCursor (c.skip c.rest.length))
    | some n => .ok (c.rest.take n) (ofCursor (c.skip (n + close.length))) := by
  unfold takeUntil
  dsimp only
  rw [rest_eq h, advanceToEnd_eq h]
  cases found : Text.occurrence? close c.rest with
  | none =>
    dsimp only
    rw [errorHere_eq (h.skip _).placed]
  | some n =>
    dsimp only
    have taken : c.rest.take (n + close.length) = c.rest.take n ++ close := by
      rw [List.take_add, ← List.prefix_iff_eq_take.1 (Text.occurrence?_spec found)]
    rw [← Text.byteLength_append, ← taken, advanceBy_eq h]

/-- Reading a tag stops where the cursor stops, and finds the same. -/
theorem readTag_eq (opens : c.delimiters.val.opening.toList <+: c.rest) :
    readTag source.toList (ofCursor c) =
      match Text.occurrence? c.sigil.2.2 (c.rest.drop c.contentStart) with
      | none => .error
        (.at (c.skip c.rest.length).place (.endBefore (String.ofList c.sigil.2.2)))
        (ofCursor (c.skip c.rest.length))
      | some n =>
        let behind := ofCursor (c.skip (c.contentStart + n + c.sigil.2.2.length))
        match c.sigil.1.content ((c.rest.drop c.contentStart).take n) with
        | .error kind => .error (.at c.place kind) behind
        | .ok content => .ok (c.sigil.1, content) behind := by
  obtain ⟨width, hw⟩ : ∃ width, c.delimiters.val.opening.toList.length = width := ⟨_, rfl⟩
  have marked : (ofCursor c).advanceBy source.toList
      (Text.byteLength c.delimiters.val.opening.toList) = ofCursor (c.skip width) := by
    rw [← advanceBy_eq h, ← hw, ← List.prefix_iff_eq_take.1 opens]
  have sigil : Sigil.ofRest c.delimiters.val ((ofCursor (c.skip width)).rest source.toList) =
      c.sigil := by
    rw [rest_eq (h.skip width), Cursor.sigil, hw]
    rfl
  have inside : (ofCursor (c.skip width)).advanceBy source.toList c.sigil.2.1 =
      ofCursor (c.skip c.contentStart) := by
    have mark : Text.byteLength ((c.rest.drop width).take c.sigil.2.1) = c.sigil.2.1 := by
      rw [Cursor.sigil, hw]
      exact Sigil.byteLength_mark _ _
    have moved := advanceBy_eq (h.skip width) c.sigil.2.1
    rw [Cursor.rest_skip, mark, Cursor.skip_skip] at moved
    rw [moved, Cursor.contentStart, hw]
  simp only [readTag, delimiters_ofCursor, pos_ofCursor, Cursor.delimiters_skip, marked, sigil,
    inside, takeUntil_eq (h.skip c.contentStart), Cursor.rest_skip]
  cases Text.occurrence? c.sigil.2.2 (c.rest.drop c.contentStart) with
  | none =>
    dsimp only
    rw [Cursor.skip_skip, Cursor.skip_of_length_le]
    rw [List.length_drop]
    omega
  | some n =>
    dsimp only
    rw [Cursor.skip_skip, ← Nat.add_assoc]
    cases c.sigil.1.content ((c.rest.drop c.contentStart).take n) with
    | error kind => simp only [errorAt_eq h]
    | ok content => rfl

end Passed

end Reader

end Mustache
