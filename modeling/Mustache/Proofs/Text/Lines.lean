import Mustache.Text.Search

/-! The lines of a text, each with its newline. -/
namespace Mustache.Text

theorem mem_of_mem_lines {cs line : List Char} {c : Char} (h : line ∈ lines cs) (mem : c ∈ line) :
    c ∈ cs := by
  rw [← lines_flatten cs]
  exact List.mem_flatten_of_mem h mem

/-- Only at its end can a line have a newline. -/
theorem newline_not_mem_dropLast {cs line : List Char} (h : line ∈ lines cs) :
    '\n' ∉ line.dropLast := by
  induction cs generalizing line with
  | nil => cases h
  | cons c rest ih =>
    simp only [lines] at h
    split at h
    · rcases List.mem_cons.1 h with rfl | later
      · simp
      · exact ih later
    · rename_i other
      split at h
      · obtain rfl := List.mem_singleton.1 h
        simp
      · rename_i first others found
        have before : '\n' ∉ first.dropLast := ih (by rw [found]; exact List.mem_cons_self)
        have some : first ≠ [] := ne_nil_of_mem_lines (by rw [found]; exact List.mem_cons_self)
        rcases List.mem_cons.1 h with rfl | later
        · rw [List.dropLast_cons_of_ne_nil some, List.mem_cons, not_or]
          exact ⟨Ne.symm other, before⟩
        · exact ih (by rw [found]; exact List.mem_cons_of_mem _ later)

/-- Nothing in front of every line. -/
theorem flatMap_lines_flush (texts : List (List Char)) :
    (texts.flatMap lines).flatMap ([] ++ ·) = texts.flatten := by
  induction texts with
  | nil => rfl
  | cons cs rest ih =>
    rw [List.flatMap_cons, List.flatMap_append, ih, List.flatten_cons]
    simp

/-- What follows begins a line. -/
def AtLineStart (cs : List Char) : Prop := cs = [] ∨ cs.getLast? = some '\n'

instance (cs : List Char) : Decidable (AtLineStart cs) :=
  inferInstanceAs (Decidable (_ ∨ _))

theorem AtLineStart.of_cons {c : Char} {cs : List Char} (h : AtLineStart (c :: cs)) :
    AtLineStart cs := by
  cases cs with
  | nil => exact .inl rfl
  | cons next rest =>
    rcases h with none | newline
    · cases none
    · rw [List.getLast?_cons_cons] at newline
      exact .inr newline

/-- Behind a whole line the next one begins. -/
theorem lines_append {cs : List Char} (h : AtLineStart cs) (more : List Char) :
    lines (cs ++ more) = lines cs ++ lines more := by
  induction cs with
  | nil => rfl
  | cons c rest ih =>
    rw [List.cons_append, lines, lines, ih h.of_cons]
    split
    · rfl
    · rename_i other
      have some : rest ≠ [] := by
        rintro rfl
        rcases h with none | newline
        · cases none
        · exact other (Option.some.inj newline)
      cases further : lines rest with
      | nil =>
        rw [← lines_flatten rest, further] at some
        exact absurd rfl some
      | cons line others => rfl

/-- Texts each of which ends where a line does, but for those that nothing follows. -/
def Aligned : List (List Char) → Prop
  | [] => True
  | cs :: rest => (AtLineStart cs ∨ rest.flatten = []) ∧ Aligned rest

instance decidableAligned : (texts : List (List Char)) → Decidable (Aligned texts)
  | [] => isTrue trivial
  | _ :: rest =>
    have := decidableAligned rest
    inferInstanceAs (Decidable (_ ∧ _))

/-- Their lines are the lines of the whole. -/
theorem Aligned.lines_flatten {texts : List (List Char)} (h : Aligned texts) :
    lines texts.flatten = texts.flatMap lines := by
  induction texts with
  | nil => rfl
  | cons cs rest ih =>
    obtain ⟨ends, others⟩ := h
    rw [List.flatten_cons, List.flatMap_cons, ← ih others]
    rcases ends with start | none
    · exact lines_append start _
    · rw [none, List.append_nil]
      exact (List.append_nil _).symm

end Mustache.Text
