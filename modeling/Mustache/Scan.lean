import Mustache.Scan.Cursor

/-! The flat reading of a source: text and tags from left to right, without regard to nesting. -/
namespace Mustache

/-- The segments of a source and how it ends. -/
structure Scan where
  segments : List Segment
  ending : Ending
  deriving DecidableEq

/-- Everything from a cursor on. -/
def Cursor.scan (c : Cursor) : Scan :=
  match _h : c.step with
  | .error ending => ⟨[], ending⟩
  | .ok (segment, next) =>
    let later := next.scan
    ⟨segment :: later.segments, later.ending⟩
termination_by c.rest.length
decreasing_by exact Cursor.length_rest_of_step ‹_›

theorem Cursor.scan_of_error {c : Cursor} {ending : Ending} (h : c.step = .error ending) :
    c.scan = ⟨[], ending⟩ := by
  rw [Cursor.scan]
  split <;> simp_all

theorem Cursor.scan_of_ok {c next : Cursor} {segment : Segment}
    (h : c.step = .ok (segment, next)) :
    c.scan = ⟨segment :: next.scan.segments, next.scan.ending⟩ := by
  rw [Cursor.scan]
  split <;> simp_all

/-- The flat reading of a whole source. -/
def scan (source : String) (d : ValidDelimiters) : Scan := (Cursor.ofSource source d).scan

end Mustache
