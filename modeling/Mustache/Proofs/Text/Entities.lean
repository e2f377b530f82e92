import Mathlib.Logic.Function.Defs
import Mustache.Proofs.Text.Html

/-! Escaped text read back. Every reserved character is written as one entity, no other character is
written with an ampersand, and so a reader that replaces entities from left to right finds the text
again, also where the text itself looks like an entity. -/
namespace Mustache.Text

/-- What each of the entities stands for. -/
def entityValues : List (String × Char) :=
  [("&amp;", '&'), ("&lt;", '<'), ("&gt;", '>'), ("&quot;", '\x22'), ("&#39;", '\x27')]

/-- A reader that goes from left to right, replaces each entity that begins where it stands, and keeps
every other character. -/
structure ReadsEntities (read : List Char → List Char) : Prop where
  nil : read [] = []
  entity {e : String} {c : Char} (stands : (e, c) ∈ entityValues) (rest : List Char) :
    read (e.toList ++ rest) = c :: read rest
  literal {c : Char} {rest : List Char} (none : ∀ e ∈ entities, ¬ e.toList <+: c :: rest) :
    read (c :: rest) = c :: read rest

/-- No entity begins without an ampersand. -/
theorem not_entity_of_ne {c : Char} (h : c ≠ '&') (rest : List Char) :
    ∀ e ∈ entities, ¬ e.toList <+: c :: rest := by
  have shape : ∀ e ∈ entities, e.toList = '&' :: e.toList.tail := by decide
  intro e mem begins
  rw [shape e mem, List.cons_prefix_cons] at begins
  exact h begins.1.symm

theorem readsEntities_readHtml : ReadsEntities readHtml where
  nil := rfl
  entity {e c} stands rest := by
    simp only [entityValues, List.mem_cons, Prod.mk.injEq, List.not_mem_nil, or_false] at stands
    rcases stands with ⟨rfl, rfl⟩ | ⟨rfl, rfl⟩ | ⟨rfl, rfl⟩ | ⟨rfl, rfl⟩ | ⟨rfl, rfl⟩ <;> rfl
  literal {c rest} none := by
    have begins (e : String) (mem : e ∈ entities) (more : List Char) :
        c :: rest ≠ e.toList ++ more := fun split => none e mem (split ▸ List.prefix_append _ _)
    -- each of the first five equations would need its entity in front
    rw [readHtml]
    · rintro more rfl rfl
      exact begins "&amp;" (by decide) more rfl
    · rintro more rfl rfl
      exact begins "&lt;" (by decide) more rfl
    · rintro more rfl rfl
      exact begins "&gt;" (by decide) more rfl
    · rintro more rfl rfl
      exact begins "&quot;" (by decide) more rfl
    · rintro more rfl rfl
      exact begins "&#39;" (by decide) more rfl

namespace ReadsEntities
variable {read : List Char → List Char} (reads : ReadsEntities read)
include reads

/-- What one character is written as is read as that character, whatever follows. -/
theorem htmlEntity_append (c : Char) (rest : List Char) :
    read (htmlEntity c ++ rest) = c :: read rest := by
  unfold htmlEntity
  split
  · exact reads.entity (e := "&amp;") (by decide) rest
  · exact reads.entity (e := "&lt;") (by decide) rest
  · exact reads.entity (e := "&gt;") (by decide) rest
  · exact reads.entity (e := "&quot;") (by decide) rest
  · exact reads.entity (e := "&#39;") (by decide) rest
  · rename_i unreserved _ _ _ _
    exact reads.literal (not_entity_of_ne unreserved rest)

/-- By induction on the text; what is still to be read stands behind. -/
theorem flatMap_htmlEntity (cs : List Char) : read (cs.flatMap htmlEntity) = cs := by
  induction cs with
  | nil => exact reads.nil
  | cons c rest ih => rw [List.flatMap_cons, reads.htmlEntity_append, ih]

end ReadsEntities

theorem unescapeHtml_escapeHtml (s : String) : unescapeHtml (escapeHtml s) = s := by
  rw [unescapeHtml, escapeHtml, String.toList_ofList,
    readsEntities_readHtml.flatMap_htmlEntity, String.ofList_toList]

theorem escapeHtml_append (s t : String) : escapeHtml (s ++ t) = escapeHtml s ++ escapeHtml t := by
  rw [escapeHtml, String.toList_append, List.flatMap_append, String.ofList_append, escapeHtml,
    escapeHtml]

/-- Writes one character behind an output. -/
def putEscaped (output : String) : Char → String
  | '&' => output ++ "&amp;"
  | '<' => output ++ "&lt;"
  | '>' => output ++ "&gt;"
  | '\x22' => output ++ "&quot;"
  | '\x27' => output ++ "&#39;"
  | c => output.push c

/-- Writes a text behind an output, one character after the other. -/
def escapeHtmlInto (s output : String) : String := s.toList.foldl putEscaped output

theorem putEscaped_eq (output : String) (c : Char) :
    putEscaped output c = output ++ String.ofList (htmlEntity c) := by
  unfold putEscaped
  split
  · rfl
  · rfl
  · rfl
  · rfl
  · rfl
  · rw [htmlEntity]
    · exact String.push_eq_append c
    all_goals assumption

theorem escapeHtmlInto_eq (s output : String) : escapeHtmlInto s output = output ++ escapeHtml s := by
  unfold escapeHtmlInto escapeHtml
  induction s.toList generalizing output with
  | nil => exact String.append_empty.symm
  | cons c rest ih =>
    rw [List.foldl_cons, ih, putEscaped_eq, List.flatMap_cons, String.ofList_append,
      String.append_assoc]

/-- Escaping loses nothing and is safe. Reading replaces the five entities from left to right and finds
any text again, so no two texts are escaped alike. An escaped text holds no reserved character but
ampersands, each of which begins an entity. Escaping goes along with putting texts together, and
writing behind an output adds the escaped text to it. -/
theorem escapeHtml_lossless :
    ReadsEntities readHtml ∧ (∀ s, unescapeHtml (escapeHtml s) = s) ∧
      Function.Injective escapeHtml ∧ (∀ s, HtmlSafe (escapeHtml s).toList) ∧
      (∀ s t, escapeHtml (s ++ t) = escapeHtml s ++ escapeHtml t) ∧
      ∀ s output, escapeHtmlInto s output = output ++ escapeHtml s :=
  ⟨readsEntities_readHtml, unescapeHtml_escapeHtml,
    Function.LeftInverse.injective unescapeHtml_escapeHtml, .escapeHtml, escapeHtml_append,
    escapeHtmlInto_eq⟩

/-- What looks like an entity before it is escaped is read back as it was. -/
example : unescapeHtml (escapeHtml "a &lt; b &amp;#39;") = "a &lt; b &amp;#39;" := by decide

end Mustache.Text
