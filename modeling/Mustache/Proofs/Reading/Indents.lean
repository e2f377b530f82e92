import Mustache.Proofs.Reading.Run

/-! The indents that reading gives to partials: what it takes away in front of a tag that stands
alone on its line, so blanks and nothing else. -/
namespace Mustache

/-- A partial under an indent of blanks, or no partial at all. -/
def Node.Blank : Node → Prop
  | .inclusion i | .parent i _ => i.indent.toList.all Text.isBlank
  | .text _ | .interpolation _ _ | .sect _ | .block _ => True

namespace Cursor
variable {c next : Cursor} {segment : Segment}

theorem blank_step (h : c.step = .ok (segment, next)) :
    segment.tag.indent.toList.all Text.isBlank := by
  obtain ⟨n, directive, after, -, -, made⟩ := step_ok_iff.1 h
  obtain ⟨rfl, -⟩ := Prod.mk.inj made
  cases line : aloneUntil? (c.skip n) after directive with
  | none => rfl
  | some k =>
    obtain ⟨margin, -⟩ := aloneUntil?_eq_some line
    simpa using margin

theorem blank_of_scan (mem : segment ∈ c.scan.segments) :
    segment.tag.indent.toList.all Text.isBlank :=
  c.forall_scan (p := fun segment => segment.tag.indent.toList.all Text.isBlank) blank_step _ mem

end Cursor

theorem Assembly.makes_blank :
    Makes (fun indent => indent.toList.all Text.isBlank) Node.Blank where
  text _ := trivial
  interpolation _ _ := trivial
  inclusion _ _ h := h

/-- A partial with overrides is never given an indent. -/
theorem Assembly.closes_blank (source : String) (a : Assembly) (tag : Tag) :
    Closes source Node.Blank a tag := by
  intro f _ _ _
  unfold Frame.close
  cases f.opener with
  | sect | block => trivial
  | parent => rfl

/-- Every partial that is read has an indent of blanks. -/
theorem Template.blank_of_parse {d : Delimiters} {source : String} {t : Template}
    (ok : Template.parseWith d source = .ok t) : Node.Everywhere Node.Blank t.nodes := by
  obtain ⟨_, parsed⟩ := nodes_of_parseWith ok
  exact everywhere_parseNodes Assembly.makes_blank (Assembly.closes_blank source)
    (fun _ mem => Cursor.blank_of_scan mem) parsed

/-- A template whose nodes have been read from some source. -/
def Template.Parsed (t : Template) : Prop :=
  ∃ d source read, parseWith d source = .ok read ∧ t.nodes = read.nodes

namespace Template.Parsed
variable {t : Template}

theorem blank (h : t.Parsed) : Node.Everywhere Node.Blank t.nodes := by
  obtain ⟨d, source, read, ok, nodes⟩ := h
  rw [nodes]
  exact blank_of_parse ok

theorem unsettled (h : t.Parsed) : Node.Everywhere Node.Unsettled t.nodes := by
  obtain ⟨d, source, read, ok, nodes⟩ := h
  rw [nodes]
  exact unsettled_of_parse ok

end Template.Parsed

end Mustache
