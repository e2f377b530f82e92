import Mathlib.Order.Basic
import Mustache.Doc.Template
import Mustache.Node.Equality
import Mustache.Proofs.Tree

/-! A template is stored by its name and its source. When it is restored, the source is read with the
standard delimiters, so the tree comes back if these read it as the delimiters did that it was read
with. -/
namespace Mustache.Template
variable {source : String} {d : Delimiters} {t : Template}

theorem parseWith_eq_ok_iff :
    parseWith d source = .ok t ↔
      ∃ valid : d.Valid, parseNodes source ⟨d, valid⟩ = .ok t.nodes ∧ t = ⟨none, source, t.nodes⟩ := by
  constructor
  · intro ok
    obtain ⟨valid, parsed⟩ := nodes_of_parseWith ok
    refine ⟨valid, parsed, ?_⟩
    rw [parseWith, dif_pos valid, parsed] at ok
    exact (Except.ok.inj ok).symm
  · rintro ⟨valid, parsed, same⟩
    rw [parseWith, dif_pos valid, parsed]
    exact congrArg Except.ok same.symm

/-- The stored form holds the name and the source as they are. -/
theorem fields?_toDoc (t : Template) : fields? t.toDoc = some (t.name, t.source) := by
  obtain ⟨name, source, nodes⟩ := t
  cases name <;> rfl

theorem ofDoc_toDoc (t : Template) :
    ofDoc t.toDoc = match parse t.source with
      | .ok s => .ok { s with name := t.name }
      | .error error => .error (.unreadable error) := by
  cases read : parse t.source <;> simp only [ofDoc, fields?_toDoc, read]

/-- What comes back has the name and the source, and the nodes that the standard delimiters read. -/
theorem ofDoc_toDoc_eq_ok_iff {restored : Template} :
    ofDoc t.toDoc = .ok restored ↔
      ∃ s, parse t.source = .ok s ∧ restored = ⟨t.name, t.source, s.nodes⟩ := by
  rw [ofDoc_toDoc]
  cases again : parse t.source with
  | error error => simp
  | ok s =>
    obtain ⟨-, -, same⟩ := parseWith_eq_ok_iff.1 again
    rw [same]
    simp [eq_comm]

/-- A source in which the open delimiter does not occur is read as one text. -/
theorem parseWith_of_absent (valid : d.Valid)
    (absent : Text.occurrence? d.opening.toList source.toList = none) :
    parseWith d source = .ok ⟨none, source, Node.pushText source []⟩ := by
  have last : (Cursor.ofSource source ⟨d, valid⟩).step =
      .error (.finished source
        ((Cursor.ofSource source ⟨d, valid⟩).skip source.toList.length).place d) := by
    unfold Cursor.step Cursor.ofSource
    simp only [absent, String.ofList_toList]
  have one : (Node.pushText source []).reverse = Node.pushText source [] := by
    unfold Node.pushText
    split <;> rfl
  refine parseWith_eq_ok_iff.2 ⟨valid, ?_, rfl⟩
  unfold parseNodes scan
  rw [Cursor.scan_of_error last]
  exact congrArg Except.ok one

/-- A stored template can be restored exactly if the standard delimiters read its source. It keeps its
name and its source, and has the nodes that they read. So it comes back as it was if they read its
source as it was read before: always if it was read with them, and also if its source holds neither
their open delimiter nor the one it was read with. -/
theorem restored_iff_reread (name : Option String) (read : parseWith d source = .ok t) :
    let stored : Template := { t with name }
    (∀ restored, ofDoc stored.toDoc = .ok restored ↔
      ∃ s, parse source = .ok s ∧ restored = ⟨name, source, s.nodes⟩) ∧
    (∀ error, parse source = .error error → ofDoc stored.toDoc = .error (.unreadable error)) ∧
    (ofDoc stored.toDoc = .ok stored ↔ parse source = .ok t) ∧
    (d = .standard → ofDoc stored.toDoc = .ok stored) ∧
    (Text.occurrence? d.opening.toList source.toList = none →
      Text.occurrence? Delimiters.standard.opening.toList source.toList = none →
      ofDoc stored.toDoc = .ok stored) := by
  intro stored
  obtain ⟨valid, -, whole⟩ := parseWith_eq_ok_iff.1 read
  have kept : stored = ⟨name, source, t.nodes⟩ := by rw [show stored = { t with name } from rfl, whole]
  have back_iff : ofDoc stored.toDoc = .ok stored ↔ parse source = .ok t := by
    rw [ofDoc_toDoc_eq_ok_iff, kept]
    constructor
    · rintro ⟨s, again, same⟩
      obtain ⟨-, -, unnamed⟩ := parseWith_eq_ok_iff.1 again
      rw [again, unnamed, whole, (Template.mk.inj same).2.2]
    · exact fun again => ⟨t, again, rfl⟩
  refine ⟨fun restored => ?_, fun error failed => ?_, back_iff, fun standard => ?_,
    fun absent absent' => ?_⟩
  · rw [kept]
    exact ofDoc_toDoc_eq_ok_iff
  · rw [kept, ofDoc_toDoc, failed]
  · rw [back_iff, parse, ← standard]
    exact read
  · -- either pair of delimiters reads one text
    rw [back_iff, ← read, parseWith_of_absent valid absent]
    exact parseWith_of_absent Delimiters.standard_valid absent'

/-- A letter with a list in it, a partial, and delimiters of its own from some place on. -/
theorem restored_letter :
    let source := "Dear \x7b\x7bname\x7d\x7d,\n\x7b\x7b=| |=\x7d\x7d\n|#items|\n  |>item|\n|/items|\n"
    let letter : Template := ⟨some "letter", source,
      [.text "Dear ", .interpolation "name" true, .text ",\n",
        .sect ⟨"items", false, ⟨source, 34, 44, ⟨"|", "|"⟩⟩, [.inclusion ⟨"item", "  ", none⟩]⟩]⟩
    parse source = .ok { letter with name := none } ∧ ofDoc letter.toDoc = .ok letter := by
  intro source letter
  have read : parse source = .ok { letter with name := none } := by decide +kernel
  exact ⟨read, (restored_iff_reread (some "letter") read).2.2.2.1 rfl⟩

/-- The delimiters that a source was read with are not stored. Its tags come back as text, or as what
the standard delimiters make of it. -/
theorem restored_bars :
    let bars : Delimiters := ⟨"|", "|"⟩
    let greeting : Template := ⟨none, "Hi |name|", [.text "Hi ", .interpolation "name" true]⟩
    let brace : Template := ⟨none, "|name| \x7b\x7b", [.interpolation "name" true, .text " \x7b\x7b"]⟩
    (parseWith bars greeting.source = .ok greeting ∧
      ofDoc greeting.toDoc = .ok { greeting with nodes := [.text "Hi |name|"] } ∧
      ofDoc greeting.toDoc ≠ .ok greeting) ∧
    parseWith bars brace.source = .ok brace ∧
      ofDoc brace.toDoc = .error (.unreadable ⟨1, 10, .endBefore "\x7d\x7d"⟩) := by
  decide +kernel

end Mustache.Template
