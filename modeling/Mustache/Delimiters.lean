import Mustache.Text.WhiteSpace

/-! The two markers that open and close a tag. -/
namespace Mustache

structure Delimiters where
  opening : String
  closing : String
  deriving DecidableEq, Inhabited

/-- A marker is usable when it is not empty and holds neither white space nor an equals sign. -/
def Delimiters.usable (marker : String) : Bool :=
  !marker.toList.isEmpty && marker.toList.all fun c => !Text.isWhiteSpace c && c != '='

namespace Delimiters

def standard : Delimiters := ⟨"\x7b\x7b", "\x7d\x7d"⟩

/-- Both markers are usable. -/
def Valid (d : Delimiters) : Prop := usable d.opening = true ∧ usable d.closing = true

instance (d : Delimiters) : Decidable d.Valid :=
  inferInstanceAs (Decidable (_ ∧ _))

theorem standard_valid : standard.Valid := by decide +kernel

theorem toList_ne_nil_of_usable {marker : String} (h : usable marker = true) :
    marker.toList ≠ [] := by
  intro e
  simp [usable, e] at h

theorem Valid.opening_length {d : Delimiters} (h : d.Valid) : 0 < d.opening.toList.length :=
  List.length_pos_iff.2 (toList_ne_nil_of_usable h.1)

theorem not_isWhiteSpace_of_usable {marker : String} (h : usable marker = true) {c : Char}
    (hc : c ∈ marker.toList) : Text.isWhiteSpace c = false := by
  simp only [usable, Bool.and_eq_true, List.all_eq_true, bne_iff_ne, ne_eq,
    Bool.not_eq_true'] at h
  exact (h.2 c hc).1

/-- The pair that two words, separated by white space, name. -/
def ofWords? (content : List Char) : Option { d : Delimiters // d.Valid } :=
  match Text.words content with
  | [opening, closing] =>
    let d : Delimiters := ⟨String.ofList opening, String.ofList closing⟩
    if h : d.Valid then some ⟨d, h⟩ else none
  | _ => none

end Delimiters

/-- Delimiters that a scan can work with. -/
abbrev ValidDelimiters := { d : Delimiters // d.Valid }

def ValidDelimiters.standard : ValidDelimiters := ⟨.standard, Delimiters.standard_valid⟩

end Mustache
