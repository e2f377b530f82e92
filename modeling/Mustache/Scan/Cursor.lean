import Mustache.Tag
import Mustache.Text.Search

/-! A place in a source from which reading goes on, and the reading of one tag together with the
text in front of it. -/
namespace Mustache

/-- The text still to be read, the place where it starts, what precedes that place on its line
(nearest character first), and the delimiters in force. -/
structure Cursor where
  rest : List Char
  place : Position
  margin : List Char
  delimiters : ValidDelimiters

/-- The text in front of a tag, and the tag. -/
structure Segment where
  lead : String
  tag : Tag
  deriving DecidableEq

/-- How a source ends: with a last text, or at a fault. -/
inductive Ending
  | finished (text : String) (place : Position) (delimiters : Delimiters)
  | failed (error : ParseError)
  deriving DecidableEq

/-- What precedes a place on its line, once one more character has been passed. -/
def Cursor.widen (margin : List Char) (c : Char) : List Char :=
  if c = '\n' then [] else c :: margin

/-- How many characters to pass so that nothing is left of a line that holds only blanks from here
on. The end of the source ends a line too. -/
def Cursor.lineEnd? (rest : List Char) : Option Nat :=
  let blanks := (rest.takeWhile Text.isBlank).length
  match rest.dropWhile Text.isBlank with
  | [] => some blanks
  | '\n' :: _ => some (blanks + 1)
  | '\r' :: '\n' :: _ => some (blanks + 2)
  | _ => none

namespace Cursor

def ofSource (source : String) (d : ValidDelimiters) : Cursor :=
  ⟨source.toList, .start, [], d⟩

/-- Passes `n` characters. -/
def skip (c : Cursor) (n : Nat) : Cursor :=
  { c with
    rest := c.rest.drop n
    place := c.place.advance (c.rest.take n)
    margin := (c.rest.take n).foldl widen c.margin }

/-- Reads the tag whose open delimiter stands here. An unfinished tag is a fault at the end of the
source, any other fault is one at the start of the tag. -/
def readTag (c : Cursor) : Except ParseError (Directive × Cursor) :=
  let marked := c.skip c.delimiters.val.opening.toList.length
  let (sigil, width, close) := Sigil.ofRest c.delimiters.val marked.rest
  let inside := marked.skip width
  match Text.occurrence? close inside.rest with
  | none =>
    .error (.at (inside.skip inside.rest.length).place (.endBefore (String.ofList close)))
  | some n =>
    match Directive.ofContent sigil (inside.rest.take n) with
    | .error kind => .error (.at c.place kind)
    | .ok directive => .ok (directive, inside.skip (n + close.length))

/-- How many characters behind a tag go with its line, if the tag stands alone: only blanks precede
it on its line, and only blanks follow. -/
def aloneUntil? (start after : Cursor) (directive : Directive) : Option Nat :=
  if directive.canStandAlone && start.margin.all Text.isBlank then lineEnd? after.rest else none

/-- Reads up to the next tag and through it. -/
def step (c : Cursor) : Except Ending (Segment × Cursor) :=
  match Text.occurrence? c.delimiters.val.opening.toList c.rest with
  | none =>
    .error (.finished (String.ofList c.rest) (c.skip c.rest.length).place c.delimiters.val)
  | some n =>
    let start := c.skip n
    match start.readTag with
    | .error error => .error (.failed error)
    | .ok (directive, after) =>
      let line := aloneUntil? start after directive
      let next := after.skip (line.getD 0)
      let tag : Tag :=
        { directive
          start := start.place
          stop := next.place
          alone := line.isSome
          indent := if line.isSome then String.ofList start.margin.reverse else ""
          delimiters := c.delimiters.val }
      .ok (⟨String.ofList (c.rest.take n), tag⟩,
        { next with delimiters := directive.delimitersAfter c.delimiters })

@[simp] theorem rest_skip (c : Cursor) (n : Nat) : (c.skip n).rest = c.rest.drop n := rfl

@[simp] theorem delimiters_skip (c : Cursor) (n : Nat) :
    (c.skip n).delimiters = c.delimiters := rfl

/-- Reading a tag passes at least its open delimiter. -/
theorem readTag_rest {c after : Cursor} {directive : Directive}
    (h : c.readTag = .ok (directive, after)) :
    ∃ n, c.delimiters.val.opening.toList.length ≤ n ∧ after.rest = c.rest.drop n := by
  unfold readTag at h
  dsimp only at h
  split at h
  · exact absurd h (by simp)
  · split at h
    · exact absurd h (by simp)
    · simp only [Except.ok.injEq, Prod.mk.injEq] at h
      obtain ⟨-, rfl⟩ := h
      simp only [rest_skip, List.drop_drop]
      exact ⟨_, Nat.le_trans (Nat.le_add_right _ _) (Nat.le_add_right _ _), rfl⟩

/-- A step leaves less to read. -/
theorem length_rest_of_step {c next : Cursor} {segment : Segment}
    (h : c.step = .ok (segment, next)) : next.rest.length < c.rest.length := by
  unfold step at h
  split at h
  · exact absurd h (by simp)
  · rename_i n hn
    dsimp only at h
    split at h
    · exact absurd h (by simp)
    · rename_i directive after ht
      simp only [Except.ok.injEq, Prod.mk.injEq] at h
      obtain ⟨-, rfl⟩ := h
      obtain ⟨k, hk, hr⟩ := readTag_rest ht
      have hpos := c.delimiters.property.opening_length
      have hlen := Text.occurrence?_length hn
      simp only [delimiters_skip] at hk
      simp only [rest_skip, hr, List.length_drop]
      omega

end Cursor

end Mustache
