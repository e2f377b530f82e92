import Mustache.Doc.Value
import Mustache.Proofs.Frames

/-! Values stored and read again. A whole number is stored unsigned or signed, depending on its sign, and
either way the number that is read is the one that was stored. Lists and maps come back item by item and
entry by entry; only a lambda, which holds no data, comes back as null. -/
namespace Mustache

namespace Doc

/-- A whole number that is not negative arrives unsigned. -/
theorem ofInt_of_nonneg {n : Int64} (h : 0 ≤ n.toInt) :
    ofInt n.toInt = .unsigned (UInt64.ofNat n.toInt.toNat) := by
  have below : n.toInt < Nat.pow 2 64 := Int.lt_trans n.toInt_lt (by decide)
  rw [ofInt, if_pos ⟨h, below⟩]

/-- A negative one arrives signed. -/
theorem ofInt_of_neg {n : Int64} (h : n.toInt < 0) : ofInt n.toInt = .signed n := by
  have above : -Nat.pow 2 63 ≤ n.toInt := n.le_toInt
  rw [ofInt, if_neg (fun nonneg => Int.not_le.2 h nonneg.1), if_pos ⟨above, h⟩, Int64.ofInt_toInt]

end Doc

namespace Value

/-- Neither way in takes a whole number for a float: the unsigned numbers that are stored end where the
signed ones do. -/
theorem ofDoc_ofInt (n : Int64) : ofDoc (.ofInt n.toInt) = .int n := by
  rcases Int.lt_or_le n.toInt 0 with negative | nonneg
  · rw [Doc.ofInt_of_neg negative, ofDoc]
  · have below : n.toInt.toNat < Nat.pow 2 63 := (Int.toNat_lt nonneg).2 n.toInt_lt
    have kept : (UInt64.ofNat n.toInt.toNat).toNat = n.toInt.toNat :=
      UInt64.toNat_ofNat_of_lt' (Nat.lt_trans below (by decide))
    rw [Doc.ofInt_of_nonneg nonneg, ofDoc, kept, if_pos below, Int.toNat_of_nonneg nonneg,
      Int64.ofInt_toInt]

theorem itemsWithoutLambdas_eq_map (items : List Value) :
    itemsWithoutLambdas items = items.map withoutLambdas := by
  induction items with
  | nil => rfl
  | cons item rest ih => rw [itemsWithoutLambdas, ih, List.map_cons]

theorem entriesWithoutLambdas_eq_map (entries : List (String × Value)) :
    entriesWithoutLambdas entries = entries.map fun (key, value) => (key, value.withoutLambdas) := by
  induction entries with
  | nil => rfl
  | cons pair rest ih => rw [entriesWithoutLambdas, ih, List.map_cons]

theorem keys_entriesWithoutLambdas (entries : List (String × Value)) :
    Entries.keys (entriesWithoutLambdas entries) = Entries.keys entries := by
  rw [entriesWithoutLambdas_eq_map, Entries.keys, List.map_map]
  rfl

mutual

/-- By recursion on the value: one case for each kind, the entries of a map being in order already. -/
theorem ofDoc_toDoc : ∀ {v : Value}, v.WellFormed → ofDoc v.toDoc = v.withoutLambdas
  | .null, _ | .bool _, _ | .float _, _ | .str _, _ | .lambda _, _ => by
    simp only [toDoc, ofDoc, withoutLambdas]
  | .int n, _ => by rw [toDoc, ofDoc_ofInt, withoutLambdas]
  | .list items, h => by
    rw [WellFormed] at h
    rw [toDoc, ofDoc, ofDocs_itemDocs h, withoutLambdas]
  | .map entries, h => by
    rw [WellFormed] at h
    have sorted : Entries.Sorted (entriesWithoutLambdas entries) := by
      rw [Entries.Sorted, keys_entriesWithoutLambdas]
      exact h.1
    rw [toDoc, ofDoc, ofEntryDocs_entryDocs h.2, ofPairs, sorted.ofList_eq, withoutLambdas]

theorem ofDocs_itemDocs : ∀ {items : List Value}, WellFormedItems items →
    ofDocs (itemDocs items) = itemsWithoutLambdas items
  | [], _ => rfl
  | item :: rest, h => by
    rw [WellFormedItems] at h
    rw [itemDocs, ofDocs, ofDoc_toDoc h.1, ofDocs_itemDocs h.2, itemsWithoutLambdas]

theorem ofEntryDocs_entryDocs : ∀ {entries : List (String × Value)}, WellFormedEntries entries →
    ofEntryDocs (entryDocs entries) = entriesWithoutLambdas entries
  | [], _ => rfl
  | (key, value) :: rest, h => by
    rw [WellFormedEntries] at h
    rw [entryDocs, ofEntryDocs, ofDoc_toDoc h.1, ofEntryDocs_entryDocs h.2, entriesWithoutLambdas]

end

mutual

theorem lambdaFree_withoutLambdas : ∀ v : Value, v.withoutLambdas.LambdaFree
  | .null | .bool _ | .int _ | .float _ | .str _ | .lambda _ => by
    simp only [withoutLambdas, LambdaFree]
  | .list items => by
    rw [withoutLambdas, LambdaFree]
    exact lambdaFreeItems_withoutLambdas items
  | .map entries => by
    rw [withoutLambdas, LambdaFree]
    exact lambdaFreeEntries_withoutLambdas entries

theorem lambdaFreeItems_withoutLambdas : ∀ items, LambdaFreeItems (itemsWithoutLambdas items)
  | [] => by simp only [itemsWithoutLambdas, LambdaFreeItems]
  | item :: rest => by
    rw [itemsWithoutLambdas, LambdaFreeItems]
    exact ⟨lambdaFree_withoutLambdas item, lambdaFreeItems_withoutLambdas rest⟩

theorem lambdaFreeEntries_withoutLambdas :
    ∀ entries, LambdaFreeEntries (entriesWithoutLambdas entries)
  | [] => by simp only [entriesWithoutLambdas, LambdaFreeEntries]
  | (_, value) :: rest => by
    rw [entriesWithoutLambdas, LambdaFreeEntries]
    exact ⟨lambdaFree_withoutLambdas value, lambdaFreeEntries_withoutLambdas rest⟩

end

mutual

theorem LambdaFree.withoutLambdas_eq : ∀ {v : Value}, v.LambdaFree → v.withoutLambdas = v
  | .null, _ | .bool _, _ | .int _, _ | .float _, _ | .str _, _ => by rw [withoutLambdas]
  | .lambda _, free => by
    rw [LambdaFree] at free
    exact free.elim
  | .list items, free => by
    rw [LambdaFree] at free
    rw [withoutLambdas, itemsWithoutLambdas_of_free free]
  | .map entries, free => by
    rw [LambdaFree] at free
    rw [withoutLambdas, entriesWithoutLambdas_of_free free]

theorem itemsWithoutLambdas_of_free : ∀ {items : List Value}, LambdaFreeItems items →
    itemsWithoutLambdas items = items
  | [], _ => rfl
  | item :: rest, free => by
    rw [LambdaFreeItems] at free
    rw [itemsWithoutLambdas, free.1.withoutLambdas_eq, itemsWithoutLambdas_of_free free.2]

theorem entriesWithoutLambdas_of_free : ∀ {entries : List (String × Value)},
    LambdaFreeEntries entries → entriesWithoutLambdas entries = entries
  | [], _ => rfl
  | (key, value) :: rest, free => by
    rw [LambdaFreeEntries] at free
    rw [entriesWithoutLambdas, free.1.withoutLambdas_eq, entriesWithoutLambdas_of_free free.2]

end

theorem wellFormedEntries_insert {key : String} {value : Value} {entries : Entries Value}
    (new : value.WellFormed) (h : WellFormedEntries entries) :
    WellFormedEntries (Entries.insert key value entries) := by
  induction entries with
  | nil =>
    rw [Entries.insert, WellFormedEntries]
    exact ⟨new, h⟩
  | cons pair rest ih =>
    obtain ⟨k, old⟩ := pair
    have both := h
    rw [WellFormedEntries] at both
    rw [Entries.insert]
    split
    · rw [WellFormedEntries]
      exact ⟨new, h⟩
    · split
      · rw [WellFormedEntries]
        exact ⟨new, both.2⟩
      · rw [WellFormedEntries]
        exact ⟨both.1, ih both.2⟩

/-- Putting pairs in order makes a well-formed map of them. -/
theorem wellFormed_ofPairs {pairs : List (String × Value)} (h : WellFormedEntries pairs) :
    (ofPairs pairs).WellFormed := by
  suffices ∀ entries : Entries Value, WellFormedEntries entries → WellFormedEntries
      (pairs.foldl (fun entries pair => Entries.insert pair.1 pair.2 entries) entries) by
    rw [ofPairs, WellFormed]
    exact ⟨Entries.sorted_ofList pairs, this [] (by simp only [WellFormedEntries])⟩
  induction pairs with
  | nil => exact fun _ done => done
  | cons pair rest ih =>
    rw [WellFormedEntries] at h
    exact fun _ done => ih h.2 _ (wellFormedEntries_insert h.1 done)

mutual

/-- Whatever document a value is read from, its maps are in order. -/
theorem wellFormed_ofDoc : ∀ d : Doc, (ofDoc d).WellFormed
  | .null | .bool _ | .signed _ | .float _ | .str _ => by simp only [ofDoc, WellFormed]
  | .unsigned n => by
    rw [ofDoc]
    split <;> simp only [WellFormed]
  | .list items => by
    rw [ofDoc, WellFormed]
    exact wellFormedItems_ofDocs items
  | .map entries => by
    rw [ofDoc]
    exact wellFormed_ofPairs (wellFormedEntries_ofEntryDocs entries)

theorem wellFormedItems_ofDocs : ∀ items : List Doc, WellFormedItems (ofDocs items)
  | [] => by simp only [ofDocs, WellFormedItems]
  | item :: rest => by
    rw [ofDocs, WellFormedItems]
    exact ⟨wellFormed_ofDoc item, wellFormedItems_ofDocs rest⟩

theorem wellFormedEntries_ofEntryDocs :
    ∀ entries : List (String × Doc), WellFormedEntries (ofEntryDocs entries)
  | [] => by simp only [ofEntryDocs, WellFormedEntries]
  | (_, doc) :: rest => by
    rw [ofEntryDocs, WellFormedEntries]
    exact ⟨wellFormed_ofDoc doc, wellFormedEntries_ofEntryDocs rest⟩

end

/-- A value that is stored and read again is the same value with null for every lambda in it: the same
value altogether, if there are none. Every whole number of 64 bits is read as the whole number it was,
whether it arrives unsigned or signed; a list keeps its items in their order, and a map its entries. -/
theorem restored_without_lambdas {v : Value} (h : v.WellFormed) :
    let restored := ofDoc v.toDoc
    restored = v.withoutLambdas ∧ restored.WellFormed ∧ restored.LambdaFree ∧
      (v.LambdaFree → restored = v) ∧
      (∀ n, v = .int n → restored = .int n ∧ v.toDoc =
        if 0 ≤ n.toInt then .unsigned (UInt64.ofNat n.toInt.toNat) else .signed n) ∧
      (∀ items, v = .list items → restored = .list (items.map withoutLambdas)) ∧
      ∀ entries, v = .map entries →
        restored = .map (entries.map fun (key, value) => (key, value.withoutLambdas)) := by
  intro restored
  have same : restored = v.withoutLambdas := ofDoc_toDoc h
  refine ⟨same, wellFormed_ofDoc _, same ▸ lambdaFree_withoutLambdas v,
    fun free => same.trans free.withoutLambdas_eq, ?_, ?_, ?_⟩
  · rintro n rfl
    refine ⟨by rw [same, withoutLambdas], ?_⟩
    rw [toDoc]
    split
    · exact Doc.ofInt_of_nonneg ‹_›
    · exact Doc.ofInt_of_neg (Int.not_le.1 ‹_›)
  · rintro items rfl
    rw [same, withoutLambdas, itemsWithoutLambdas_eq_map]
  · rintro entries rfl
    rw [same, withoutLambdas, entriesWithoutLambdas_eq_map]

/-- Both ends of the whole numbers, and lambdas inside of a map and of a list. -/
theorem restored_limits :
    let limits := Value.list [.int Int64.minValue, .int (-1), .int 0, .int Int64.maxValue]
    let v := Value.map [("call", .lambda ⟨0⟩), ("limits", limits),
      ("steps", .list [.lambda ⟨1⟩, .str "b", .str "a"])]
    v.WellFormed ∧ ofDoc v.toDoc =
      .map [("call", .null), ("limits", limits), ("steps", .list [.null, .str "b", .str "a"])] := by
  intro limits v
  have ordered : v.WellFormed := by
    simp only [v, limits, WellFormed, WellFormedEntries, WellFormedItems, and_true]
    decide
  refine ⟨ordered, (restored_without_lambdas ordered).1.trans ?_⟩
  simp only [v, limits, withoutLambdas, entriesWithoutLambdas, itemsWithoutLambdas]

end Value
end Mustache
