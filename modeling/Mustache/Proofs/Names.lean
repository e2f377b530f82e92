import Mustache.Context

/-! Dotted names: their segments, and what they mean in a context. A dotted name is looked up under its
first segment, as that segment alone would be, and then segment by segment in the value found. -/
namespace Mustache

namespace Text
variable {separator : Char} {cs : List Char}

theorem cutAt_of_not_mem (h : separator ∉ cs) : cutAt separator cs = (cs, []) := by
  induction cs with
  | nil => rfl
  | cons c rest ih =>
    have here : c ≠ separator := fun same => h (same ▸ List.mem_cons_self)
    have later := ih fun mem => h (List.mem_cons_of_mem _ mem)
    simp only [cutAt, later, if_neg here]

/-- A cut is made at the first separator. -/
theorem cutAt_append (h : separator ∉ cs) (rest : List Char) :
    cutAt separator (cs ++ separator :: rest) =
      (cs, (cutAt separator rest).1 :: (cutAt separator rest).2) := by
  induction cs with
  | nil => simp [cutAt]
  | cons c cs ih =>
    have here : c ≠ separator := fun same => h (same ▸ List.mem_cons_self)
    have later := ih fun mem => h (List.mem_cons_of_mem _ mem)
    simp only [List.cons_append, cutAt, later, if_neg here]

theorem separator_not_mem_cutAt (separator : Char) (cs : List Char) :
    separator ∉ (cutAt separator cs).1 := by
  induction cs with
  | nil => exact List.not_mem_nil
  | cons c rest ih =>
    simp only [cutAt]
    split
    · exact List.not_mem_nil
    · rename_i other
      simp [Ne.symm other, ih]

end Text

/-- A name without dots is a single segment. -/
theorem nameSegments_of_dotless {name : String} (dotless : '.' ∉ name.toList) :
    nameSegments name = (name, []) := by
  simp [nameSegments, Text.cutAt_of_not_mem dotless]

/-- The first segment holds no dot. -/
theorem dot_not_mem_firstSegment (name : String) : '.' ∉ (nameSegments name).1.toList := by
  simpa [nameSegments] using Text.separator_not_mem_cutAt '.' name.toList

theorem firstSegment_ne_dot (name : String) : (nameSegments name).1 ≠ "." := by
  intro same
  have dotless := dot_not_mem_firstSegment name
  rw [same] at dotless
  exact dotless (by decide)

/-- What can stand between the dots of a name. -/
def IsSegment (s : String) : Prop := s ≠ "" ∧ '.' ∉ s.toList

instance (s : String) : Decidable (IsSegment s) :=
  inferInstanceAs (Decidable (s ≠ "" ∧ '.' ∉ s.toList))

/-- The name that has the segments. -/
def dottedName (segments : List String) : String := ".".intercalate segments

theorem dottedName_singleton (segment : String) : dottedName [segment] = segment :=
  String.intercalate_singleton

theorem toList_dottedName_cons (first next : String) (others : List String) :
    (dottedName (first :: next :: others)).toList =
      first.toList ++ '.' :: (dottedName (next :: others)).toList := by
  rw [dottedName, String.intercalate_cons_cons, String.toList_append, String.toList_append,
    List.append_assoc]
  rfl

theorem nameSegments_dottedName {first : String} {others : List String}
    (segments : ∀ s ∈ first :: others, IsSegment s) :
    nameSegments (dottedName (first :: others)) = (first, others) := by
  induction others generalizing first with
  | nil =>
    rw [dottedName_singleton]
    exact nameSegments_of_dotless (segments first List.mem_cons_self).2
  | cons next others ih =>
    obtain ⟨⟨-, dotless⟩, later⟩ := List.forall_mem_cons.1 segments
    have rest := ih later
    unfold nameSegments at rest ⊢
    obtain ⟨head, tail⟩ := Prod.mk.inj rest
    rw [toList_dottedName_cons, Text.cutAt_append dotless]
    simp only [List.map_cons, head, tail, String.ofList_toList]

/-- A dotted name is never the dot alone. -/
theorem dottedName_ne_dot {first : String} (segment : IsSegment first) (others : List String) :
    dottedName (first :: others) ≠ "." := by
  obtain ⟨some, dotless⟩ := segment
  intro same
  cases others with
  | nil =>
    rw [dottedName_singleton] at same
    exact dotless (same ▸ by decide)
  | cons next others =>
    have spelled := (toList_dottedName_cons first next others).symm.trans (congrArg String.toList same)
    cases first_eq : first.toList with
    | nil => exact some (String.toList_eq_nil_iff.1 first_eq)
    | cons c rest =>
      rw [first_eq, List.cons_append] at spelled
      have dot : c = '.' := (List.cons.inj spelled).1
      exact dotless (by rw [first_eq, dot]; exact List.mem_cons_self)

namespace Context
variable {c : Context} {first : String} {others : List String}

theorem resolve?_dottedName (segments : ∀ s ∈ first :: others, IsSegment s) :
    c.resolve? (dottedName (first :: others)) =
      (c.frames.findSome? (Value.get? first)).bind fun value => value.descend? others := by
  have named := dottedName_ne_dot (segments first List.mem_cons_self) others
  rw [resolve?, if_neg named, nameSegments_dottedName segments]

/-- A segment means the member of the nearest frame that has one. -/
theorem resolve?_segment (segment : IsSegment first) :
    c.resolve? first = c.frames.findSome? (Value.get? first) := by
  have single : c.resolve? (dottedName [first]) =
      (c.frames.findSome? (Value.get? first)).bind fun value => value.descend? [] :=
    resolve?_dottedName (List.forall_mem_singleton.2 segment)
  rw [dottedName_singleton] at single
  refine single.trans ?_
  cases c.frames.findSome? (Value.get? first) <;> rfl

/-- What the first segment means, and the way from there. -/
theorem exists_of_resolve?_dottedName (segments : ∀ s ∈ first :: others, IsSegment s) {v : Value}
    (found : c.resolve? (dottedName (first :: others)) = some v) :
    ∃ outer, c.resolve? first = some outer ∧ outer.descend? others = some v := by
  rw [resolve?_dottedName segments] at found
  rw [resolve?_segment (segments first List.mem_cons_self)]
  exact Option.bind_eq_some_iff.1 found

/-- Inside of a value, the way on from there is the dotted name: the value holds the first segment, so
no frame further out does. -/
theorem resolve?_push_dottedName (segments : ∀ s ∈ first :: others, IsSegment s)
    {outer v : Value} (way : outer.descend? (first :: others) = some v) :
    (c.push outer).resolve? (dottedName (first :: others)) = some v := by
  obtain ⟨member, held, rest⟩ := Option.bind_eq_some_iff.1 way
  rw [resolve?_dottedName segments, frames_push, List.findSome?_cons, held]
  exact rest

end Context

/-- A value that has a member is a map. -/
theorem Value.eq_map_of_get? {value member : Value} {key : String}
    (held : value.get? key = some member) : ∃ entries, value = map entries := by
  cases value with
  | map entries => exact ⟨entries, rfl⟩
  | _ => cases held

end Mustache
