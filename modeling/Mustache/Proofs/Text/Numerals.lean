import Mustache.Value

/-! The text of a value stands on one line, if it is not a string with more of them. -/
namespace Mustache

theorem newline_not_mem_repr (n : Nat) : '\n' ∉ n.repr.toList := by
  intro mem
  rw [Nat.repr, String.toList_ofList] at mem
  have digit := Nat.isDigit_of_mem_toDigits (by omega) (by omega) mem
  exact absurd digit (by decide)

namespace Binary64

theorem newline_not_mem_positional (d : Decimal) : '\n' ∉ d.positional.toList := by
  have digits := newline_not_mem_repr d.digits
  have zeros (n : Nat) : '\n' ∉ List.replicate n '0' :=
    fun mem => absurd (List.eq_of_mem_replicate mem) (by decide)
  unfold Decimal.positional
  cases d.exponent with
  | ofNat k =>
    simp only [String.toList_ofList, List.mem_append, not_or]
    exact ⟨digits, zeros k⟩
  | negSucc k =>
    dsimp only
    split
    · simp only [String.toList_ofList, List.mem_append, List.mem_cons, not_or]
      exact ⟨fun mem => digits (List.mem_of_mem_take mem), by decide,
        fun mem => digits (List.mem_of_mem_drop mem)⟩
    · simp only [String.toList_ofList, List.mem_append, List.mem_cons, not_or]
      exact ⟨by decide, by decide, zeros _, digits⟩

theorem newline_not_mem_text (x : Float) : '\n' ∉ (text x).toList := by
  unfold text
  split
  · decide
  · split <;> decide
  · split <;> decide
  · rw [String.toList_append, List.mem_append, not_or]
    refine ⟨?_, newline_not_mem_positional _⟩
    split <;> decide

end Binary64

theorem Value.newline_not_mem_text {x : Value} {text : String} (shows : x.text? = some text)
    (strings : ∀ s, x = .str s → '\n' ∉ s.toList) : '\n' ∉ text.toList := by
  cases x with
  | list | map | lambda => cases shows
  | null =>
    obtain rfl := Option.some.inj shows
    decide
  | bool b =>
    obtain rfl := Option.some.inj shows
    cases b <;> decide
  | int n =>
    obtain rfl := Option.some.inj shows
    cases n.toInt with
    | ofNat k => exact newline_not_mem_repr k
    | negSucc k =>
      rw [Int.repr, String.toList_append, List.mem_append, not_or]
      exact ⟨by decide, newline_not_mem_repr _⟩
  | float f =>
    obtain rfl := Option.some.inj shows
    exact Binary64.newline_not_mem_text f
  | str s =>
    obtain rfl := Option.some.inj shows
    exact strings s rfl

end Mustache
