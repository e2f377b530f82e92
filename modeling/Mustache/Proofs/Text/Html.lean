import Mustache.Text.Html

/-! Text that may stand inside HTML: it holds no reserved character, but for ampersands that begin
an entity. Escaped text is of this kind, and so is one safe text behind another. -/
namespace Mustache.Text

/-- What the five reserved characters are written as. -/
def entities : List String := ["&amp;", "&lt;", "&gt;", "&quot;", "&#39;"]

/-- No reserved character at all. -/
def Plain (cs : List Char) : Prop := ∀ c ∈ cs, c ∉ ['&', '<', '>', '\x22', '\x27']

instance (cs : List Char) : Decidable (Plain cs) := List.decidableBAll _ cs

/-- No reserved character but the ampersand, and wherever that stands, one of the entities begins. -/
structure HtmlSafe (cs : List Char) : Prop where
  unreserved : ∀ c ∈ cs, c ∉ ['<', '>', '\x22', '\x27']
  entity : ∀ before after, cs = before ++ '&' :: after → ∃ e ∈ entities, e.toList <+: '&' :: after

namespace HtmlSafe
variable {cs ds : List Char}

theorem of_plain (h : Plain cs) : HtmlSafe cs := by
  refine ⟨fun c mem reserved => h c mem (List.mem_cons_of_mem _ reserved), ?_⟩
  intro before after split
  have mem : '&' ∈ cs := by simp [split]
  exact absurd List.mem_cons_self (h _ mem)

/-- An entity is complete in the text that holds its ampersand, whatever follows. -/
theorem append (h : HtmlSafe cs) (h' : HtmlSafe ds) : HtmlSafe (cs ++ ds) := by
  constructor
  · intro c mem
    rcases List.mem_append.1 mem with mem | mem
    · exact h.unreserved c mem
    · exact h'.unreserved c mem
  · intro before after split
    rcases List.append_eq_append_iff.1 split with ⟨front, rfl, rest⟩ | ⟨back, first, rest⟩
    · exact h'.entity front after rest
    · cases back with
      | nil => exact h'.entity [] after rest.symm
      | cons c back =>
        obtain ⟨rfl, rfl⟩ := List.cons.inj rest
        obtain ⟨e, mem, begins⟩ := h.entity before back first
        exact ⟨e, mem, begins.trans (List.prefix_append _ _)⟩

/-- An entity has one ampersand, at its beginning. -/
theorem of_entity {e : String} (mem : e ∈ entities) : HtmlSafe e.toList := by
  have shape : ∀ e ∈ entities, e.toList = '&' :: e.toList.tail ∧ Plain e.toList.tail := by decide
  obtain ⟨ampersand, plain⟩ := shape e mem
  constructor
  · rw [ampersand]
    refine List.forall_mem_cons.2 ⟨by decide, fun c inside reserved => ?_⟩
    exact plain c inside (List.mem_cons_of_mem _ reserved)
  · intro before after split
    cases before with
    | nil => exact ⟨e, mem, split ▸ List.prefix_refl _⟩
    | cons c before =>
      rw [split] at plain
      exact absurd List.mem_cons_self (plain '&' (by simp))

theorem of_htmlEntity (c : Char) : HtmlSafe (htmlEntity c) := by
  unfold htmlEntity
  split
  · exact of_entity (e := "&amp;") (by decide)
  · exact of_entity (e := "&lt;") (by decide)
  · exact of_entity (e := "&gt;") (by decide)
  · exact of_entity (e := "&quot;") (by decide)
  · exact of_entity (e := "&#39;") (by decide)
  · refine of_plain fun d mem => ?_
    obtain rfl := List.mem_singleton.1 mem
    simp only [List.mem_cons, List.not_mem_nil, or_false, not_or]
    exact ⟨‹_›, ‹_›, ‹_›, ‹_›, ‹_›⟩

theorem flatMap_htmlEntity (cs : List Char) : HtmlSafe (cs.flatMap htmlEntity) := by
  induction cs with
  | nil => exact of_plain nofun
  | cons c rest ih =>
    rw [List.flatMap_cons]
    exact (of_htmlEntity c).append ih

/-- Whatever the text, nothing in it is reserved once it has been escaped. -/
theorem escapeHtml (s : String) : HtmlSafe (escapeHtml s).toList := by
  rw [Text.escapeHtml, String.toList_ofList]
  exact flatMap_htmlEntity _

end HtmlSafe

/-- No character is left out. -/
theorem escapeHtml_eq_empty_iff {s : String} : escapeHtml s = "" ↔ s = "" := by
  have some (c : Char) : htmlEntity c ≠ [] := by
    unfold htmlEntity
    split <;> exact List.cons_ne_nil _ _
  rw [← String.toList_eq_nil_iff, ← String.toList_eq_nil_iff, escapeHtml, String.toList_ofList,
    List.flatMap_eq_nil_iff]
  cases s.toList with
  | nil => simp
  | cons c rest =>
    refine ⟨fun empty => ?_, nofun⟩
    exact absurd (empty c List.mem_cons_self) (some c)

/-- No line is begun. -/
theorem newline_not_mem_escapeHtml {s : String} (h : '\n' ∉ s.toList) :
    '\n' ∉ (escapeHtml s).toList := by
  rw [escapeHtml, String.toList_ofList]
  intro mem
  obtain ⟨c, here, inside⟩ := List.mem_flatMap.1 mem
  have same : c = '\n' := by
    unfold htmlEntity at inside
    split at inside
    all_goals simp at inside
    exact inside.symm
  exact h (same ▸ here)

theorem Plain.append {cs ds : List Char} (h : Plain cs) (h' : Plain ds) : Plain (cs ++ ds) := by
  intro c mem
  rcases List.mem_append.1 mem with mem | mem
  · exact h c mem
  · exact h' c mem

end Mustache.Text
