import Mustache.Text.Bytes

/-! Places in a source: a byte offset together with the line and the column it falls on, both
counted from one, the column in bytes. -/
namespace Mustache

structure Position where
  offset : Nat
  line : Nat
  column : Nat
  deriving DecidableEq, Inhabited

namespace Position

def start : Position := ⟨0, 1, 1⟩

/-- The place behind one character. -/
def next (p : Position) (c : Char) : Position :=
  if c = '\n' then ⟨p.offset + 1, p.line + 1, 1⟩
  else ⟨p.offset + c.utf8Size, p.line, p.column + c.utf8Size⟩

/-- The place behind a text that begins here. -/
def advance (p : Position) (text : List Char) : Position := text.foldl next p

@[simp] theorem advance_nil (p : Position) : p.advance [] = p := rfl

@[simp] theorem advance_cons (p : Position) (c : Char) (text : List Char) :
    p.advance (c :: text) = (p.next c).advance text := rfl

theorem advance_append (p : Position) (a b : List Char) :
    p.advance (a ++ b) = (p.advance a).advance b := List.foldl_append

@[simp] theorem offset_next (p : Position) (c : Char) :
    (p.next c).offset = p.offset + c.utf8Size := by
  unfold next
  split
  · rename_i h
    subst h
    rfl
  · rfl

@[simp] theorem offset_advance (p : Position) (text : List Char) :
    (p.advance text).offset = p.offset + Text.byteLength text := by
  induction text generalizing p with
  | nil => rfl
  | cons c rest ih => simp [ih, Nat.add_assoc]

/-- Lines count the newlines passed. -/
theorem line_advance (p : Position) (text : List Char) :
    (p.advance text).line = p.line + text.count '\n' := by
  induction text generalizing p with
  | nil => rfl
  | cons c rest ih =>
    rw [advance_cons, ih]
    by_cases h : c = '\n'
    · subst h
      simp [next, Nat.add_comm, Nat.add_left_comm]
    · simp [next, h]

/-- Behind a text without newlines the column has grown by its bytes. -/
theorem column_advance {text : List Char} (h : '\n' ∉ text) (p : Position) :
    (p.advance text).column = p.column + Text.byteLength text := by
  induction text generalizing p with
  | nil => rfl
  | cons c rest ih =>
    have hc : c ≠ '\n' := fun e => h (by simp [e])
    rw [advance_cons, ih (fun hm => h (List.mem_cons_of_mem _ hm))]
    simp [next, hc, Nat.add_assoc]

/-- Behind a newline and a text without one, the column counts that text alone. -/
theorem column_advance_line {text : List Char} (h : '\n' ∉ text) (p : Position)
    (before : List Char) :
    (p.advance (before ++ '\n' :: text)).column = 1 + Text.byteLength text := by
  rw [advance_append, advance_cons, column_advance h]
  simp [next]

end Position

end Mustache
