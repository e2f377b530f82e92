/-! Finite maps and sets keyed by text, kept in ascending order of their keys by code point. -/
namespace Mustache

/-- The pairs of a finite map. Where a key occurs twice, the first pair counts. -/
abbrev Entries (α : Type) := List (String × α)

namespace Entries
variable {α β : Type}

def get? (key : String) : Entries α → Option α
  | [] => none
  | (k, value) :: rest => if k = key then some value else get? key rest

/-- Puts a value under a key, in the place of an earlier one if there is one. -/
def insert (key : String) (value : α) : Entries α → Entries α
  | [] => [(key, value)]
  | (k, old) :: rest =>
    if key < k then (key, value) :: (k, old) :: rest
    else if key = k then (key, value) :: rest
    else (k, old) :: insert key value rest

/-- Removes every pair with the key. -/
def erase (key : String) : Entries α → Entries α
  | [] => []
  | (k, value) :: rest => if k = key then erase key rest else (k, value) :: erase key rest

/-- Collects pairs in order: of two pairs with one key the later one stays. -/
def ofList (pairs : List (String × α)) : Entries α :=
  pairs.foldl (fun entries pair => insert pair.1 pair.2 entries) []

def keys (entries : Entries α) : List String := entries.map Prod.fst

/-- Keys ascend strictly. -/
def Sorted (entries : Entries α) : Prop := (keys entries).Pairwise (· < ·)

instance (entries : Entries α) : Decidable (Sorted entries) :=
  inferInstanceAs (Decidable ((keys entries).Pairwise (· < ·)))

@[simp] theorem get?_nil (key : String) : get? key ([] : Entries α) = none := rfl

@[simp] theorem get?_cons (key k : String) (value : α) (rest : Entries α) :
    get? key ((k, value) :: rest) = if k = key then some value else get? key rest := rfl

@[simp] theorem get?_insert (key other : String) (value : α) (entries : Entries α) :
    get? other (insert key value entries) =
      if key = other then some value else get? other entries := by
  induction entries with
  | nil => rfl
  | cons pair rest ih =>
    obtain ⟨k, old⟩ := pair
    simp only [insert]
    split
    · rfl
    · split
      · rename_i h
        subst h
        by_cases ho : key = other <;> simp [ho]
      · rename_i h
        simp only [get?_cons, ih]
        by_cases hk : k = other
        · rw [if_pos hk, if_neg (fun e => h (e.trans hk.symm)), if_pos hk]
        · rw [if_neg hk, if_neg hk]

@[simp] theorem get?_erase (key other : String) (entries : Entries α) :
    get? other (erase key entries) = if key = other then none else get? other entries := by
  induction entries with
  | nil => simp [erase]
  | cons pair rest ih =>
    obtain ⟨k, value⟩ := pair
    simp only [erase]
    split
    · rename_i h
      subst h
      rw [ih]
      by_cases ho : k = other <;> simp [ho]
    · rename_i h
      simp only [get?_cons, ih]
      by_cases hk : k = other
      · rw [if_pos hk, if_pos hk, if_neg (fun e => h (hk.trans e.symm))]
      · rw [if_neg hk, if_neg hk]

theorem mem_keys_insert {key k : String} {value : α} {entries : Entries α} :
    k ∈ keys (insert key value entries) ↔ k = key ∨ k ∈ keys entries := by
  induction entries with
  | nil => simp [insert, keys]
  | cons pair rest ih =>
    obtain ⟨h, old⟩ := pair
    simp only [insert]
    split
    · simp [keys]
    · split
      · rename_i e
        subst e
        simp [keys]
      · simp only [keys, List.map_cons, List.mem_cons] at ih ⊢
        rw [ih]
        exact or_left_comm

theorem get?_isSome_iff {key : String} {entries : Entries α} :
    (get? key entries).isSome ↔ key ∈ keys entries := by
  induction entries with
  | nil => simp [keys]
  | cons pair rest ih =>
    obtain ⟨k, value⟩ := pair
    simp only [get?_cons, keys, List.map_cons, List.mem_cons] at ih ⊢
    split
    · rename_i e
      simp [e]
    · rename_i e
      rw [ih]
      exact ⟨.inr, fun h => h.resolve_left (fun e' => e e'.symm)⟩

theorem mem_keys_of_get? {key : String} {value : α} {entries : Entries α}
    (h : get? key entries = some value) : key ∈ keys entries :=
  get?_isSome_iff.1 (by simp [h])

theorem mem_of_get? {key : String} {value : α} {entries : Entries α}
    (h : get? key entries = some value) : (key, value) ∈ entries := by
  induction entries with
  | nil => cases h
  | cons pair rest ih =>
    obtain ⟨k, first⟩ := pair
    rw [get?_cons] at h
    split at h
    · rename_i e
      obtain rfl := Option.some.inj h
      exact e ▸ List.mem_cons_self
    · exact List.mem_cons_of_mem _ (ih h)

private theorem lt_of_not_lt_of_ne {a b : String} (h : ¬ a < b) (ne : a ≠ b) : b < a :=
  String.not_le.1 fun hle => ne (String.le_antisymm hle (String.not_lt.1 h))

theorem sorted_nil : Sorted ([] : Entries α) := List.Pairwise.nil

theorem Sorted.insert {entries : Entries α} (h : Sorted entries) (key : String) (value : α) :
    Sorted (insert key value entries) := by
  induction entries with
  | nil => simp [Entries.insert, Sorted, keys]
  | cons pair rest ih =>
    obtain ⟨k, old⟩ := pair
    obtain ⟨hk, hrest⟩ := List.pairwise_cons.1 (show ((k :: keys rest)).Pairwise (· < ·) from h)
    simp only [Entries.insert]
    split
    · rename_i hlt
      refine List.pairwise_cons.2 ⟨fun x hx => ?_, h⟩
      rcases List.mem_cons.1 hx with rfl | hx
      · exact hlt
      · exact String.lt_trans hlt (hk x hx)
    · split
      · rename_i e
        subst e
        exact h
      · rename_i hlt hne
        refine List.pairwise_cons.2 ⟨fun x hx => ?_, ih hrest⟩
        rcases mem_keys_insert.1 hx with rfl | hx
        · exact lt_of_not_lt_of_ne hlt hne
        · exact hk x hx

theorem sorted_ofList (pairs : List (String × α)) : Sorted (ofList pairs) := by
  suffices ∀ entries : Entries α, Sorted entries →
      Sorted (pairs.foldl (fun entries pair => insert pair.1 pair.2 entries) entries) from
    this [] sorted_nil
  induction pairs with
  | nil => exact fun _ h => h
  | cons pair rest ih => exact fun _ h => ih _ (h.insert _ _)

theorem keys_erase_sublist (key : String) (entries : Entries α) :
    (keys (erase key entries)).Sublist (keys entries) := by
  induction entries with
  | nil => exact List.Sublist.slnil
  | cons pair rest ih =>
    obtain ⟨k, value⟩ := pair
    simp only [erase]
    split
    · exact ih.cons _
    · exact ih.cons_cons _

theorem Sorted.erase {entries : Entries α} (h : Sorted entries) (key : String) :
    Sorted (erase key entries) :=
  h.sublist (keys_erase_sublist key entries)

/-- In sorted entries every pair counts. -/
theorem Sorted.get?_of_mem {entries : Entries α} (h : Sorted entries) {key : String} {value : α}
    (mem : (key, value) ∈ entries) : get? key entries = some value := by
  induction entries with
  | nil => cases mem
  | cons pair rest ih =>
    obtain ⟨k, first⟩ := pair
    obtain ⟨hk, hrest⟩ := List.pairwise_cons.1 (show ((k :: keys rest)).Pairwise (· < ·) from h)
    rw [get?_cons]
    rcases List.mem_cons.1 mem with same | mem
    · obtain ⟨rfl, rfl⟩ := Prod.mk.inj same
      exact if_pos rfl
    · have later : k < key := hk key (List.mem_map_of_mem mem)
      rw [if_neg (String.ne_of_lt later)]
      exact ih hrest mem

/-- A key above all others goes to the end. -/
theorem insert_of_forall_lt {key : String} {value : α} {entries : Entries α}
    (h : ∀ k ∈ keys entries, k < key) : insert key value entries = entries ++ [(key, value)] := by
  induction entries with
  | nil => rfl
  | cons pair rest ih =>
    obtain ⟨k, old⟩ := pair
    obtain ⟨hk, hrest⟩ := List.forall_mem_cons.1 (show ∀ x ∈ k :: keys rest, x < key from h)
    rw [insert, if_neg (String.lt_asymm hk), if_neg (String.ne_of_lt hk).symm, ih hrest]
    rfl

theorem Sorted.ofList_eq {entries : Entries α} (h : Sorted entries) : ofList entries = entries := by
  suffices ∀ before : Entries α, Sorted (before ++ entries) →
      entries.foldl (fun all pair => Entries.insert pair.1 pair.2 all) before = before ++ entries from
    this [] h
  clear h
  induction entries with
  | nil => simp
  | cons pair rest ih =>
    intro before sorted
    have below : ∀ k ∈ keys before, k < pair.1 := by
      rw [Sorted, keys, List.map_append, List.pairwise_append] at sorted
      exact fun k mem => sorted.2.2 k mem pair.1 List.mem_cons_self
    rw [List.foldl_cons, insert_of_forall_lt below, ih, List.append_assoc]
    · rfl
    · rwa [List.append_assoc]

end Entries

/-- A finite set of names, in ascending order. -/
abbrev Names := List String

namespace Names

def insert (name : String) : Names → Names
  | [] => [name]
  | n :: rest =>
    if name < n then name :: n :: rest
    else if name = n then n :: rest
    else n :: insert name rest

def ofList (names : List String) : Names := names.foldl (fun set name => insert name set) []

@[simp] theorem mem_insert {name x : String} {set : Names} :
    x ∈ insert name set ↔ x = name ∨ x ∈ set := by
  induction set with
  | nil => simp [insert]
  | cons n rest ih =>
    simp only [insert]
    split
    · simp
    · split
      · rename_i e
        subst e
        simp
      · simp only [List.mem_cons, ih]
        exact or_left_comm

end Names

end Mustache
