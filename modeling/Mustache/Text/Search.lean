/-! Searching and cutting lists of characters: the first occurrence of a mark, the segments between
separators, and lines that keep their newline. -/
namespace Mustache.Text

/-- The number of characters in front of the leftmost occurrence of `mark`. -/
def occurrence? (mark : List Char) : List Char → Option Nat
  | [] => if mark.isEmpty then some 0 else none
  | c :: rest =>
    if mark.isPrefixOf (c :: rest) then some 0 else (occurrence? mark rest).map (· + 1)

/-- The first segment and the further ones, cut at every `separator`. -/
def cutAt (separator : Char) : List Char → List Char × List (List Char)
  | [] => ([], [])
  | c :: rest =>
    let (first, others) := cutAt separator rest
    if c = separator then ([], first :: others) else (c :: first, others)

/-- Cuts behind every newline. No piece is empty, and only the last one may lack the newline. -/
def lines : List Char → List (List Char)
  | [] => []
  | c :: rest =>
    if c = '\n' then [c] :: lines rest
    else match lines rest with
      | [] => [[c]]
      | line :: others => (c :: line) :: others

theorem occurrence?_spec {mark cs : List Char} {n : Nat} (h : occurrence? mark cs = some n) :
    mark <+: cs.drop n := by
  induction cs generalizing n with
  | nil =>
    simp only [occurrence?] at h
    split at h <;> simp_all
  | cons c rest ih =>
    simp only [occurrence?] at h
    split at h
    · rename_i hp
      simp only [Option.some.injEq] at h
      subst h
      simpa using hp
    · simp only [Option.map_eq_some_iff] at h
      obtain ⟨k, hk, rfl⟩ := h
      simpa using ih hk

/-- The mark does not occur further left. -/
theorem occurrence?_least {mark cs : List Char} {n : Nat} (h : occurrence? mark cs = some n)
    {k : Nat} (hk : k < n) : ¬ mark <+: cs.drop k := by
  induction cs generalizing n k with
  | nil =>
    simp only [occurrence?] at h
    split at h <;> simp_all
    omega
  | cons c rest ih =>
    simp only [occurrence?] at h
    split at h
    · simp only [Option.some.injEq] at h
      omega
    · rename_i hp
      simp only [Option.map_eq_some_iff] at h
      obtain ⟨j, hj, rfl⟩ := h
      cases k with
      | zero => simpa using hp
      | succ k => simpa using ih hj (by omega)

/-- Where nothing is found, the mark is nowhere. -/
theorem occurrence?_eq_none {mark cs : List Char} (h : occurrence? mark cs = none) (k : Nat) :
    ¬ mark <+: cs.drop k := by
  induction cs generalizing k with
  | nil =>
    simp only [occurrence?] at h
    split at h <;> simp_all
  | cons c rest ih =>
    simp only [occurrence?] at h
    split at h
    · simp at h
    · rename_i hp
      simp only [Option.map_eq_none_iff] at h
      cases k with
      | zero => simpa using hp
      | succ k => simpa using ih h k

theorem occurrence?_length {mark cs : List Char} {n : Nat} (h : occurrence? mark cs = some n) :
    n + mark.length ≤ cs.length := by
  induction cs generalizing n with
  | nil =>
    simp only [occurrence?] at h
    split at h
    · rename_i hm
      obtain rfl := Option.some.inj h
      simp [List.isEmpty_iff.1 hm]
    · cases h
  | cons c rest ih =>
    simp only [occurrence?] at h
    split at h
    · rename_i hp
      simp only [Option.some.injEq] at h
      subst h
      simpa using (List.isPrefixOf_iff_prefix.1 hp).length_le
    · simp only [Option.map_eq_some_iff] at h
      obtain ⟨k, hk, rfl⟩ := h
      have := ih hk
      simp only [List.length_cons]
      omega

@[simp] theorem lines_flatten (cs : List Char) : (lines cs).flatten = cs := by
  induction cs with
  | nil => rfl
  | cons c rest ih =>
    simp only [lines]
    split
    · simp [ih]
    · split <;> simp_all

theorem ne_nil_of_mem_lines {cs line : List Char} (h : line ∈ lines cs) : line ≠ [] := by
  induction cs generalizing line with
  | nil => simp [lines] at h
  | cons c rest ih =>
    simp only [lines] at h
    split at h
    · rcases List.mem_cons.1 h with rfl | h
      · simp
      · exact ih h
    · split at h
      · simp_all
      · rename_i others heq
        rcases List.mem_cons.1 h with rfl | h
        · simp
        · exact ih (by rw [heq]; exact List.mem_cons_of_mem _ h)

end Mustache.Text
