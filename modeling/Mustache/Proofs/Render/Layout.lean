import Mustache.Render.Layout

/-! Laying writes out on a page that has text already. The text only grows, and where no indent is
in force it does not matter whether a line was open before. -/
namespace Mustache.Page

/-- The page with writes added, newest first. -/
def after (p : Page) (writes : List Write) : Page :=
  writes.foldr (fun write page => page.put write) p

@[simp] theorem after_nil (p : Page) : p.after [] = p := rfl

@[simp] theorem after_cons (p : Page) (write : Write) (writes : List Write) :
    p.after (write :: writes) = (p.after writes).put write := rfl

theorem after_append (p : Page) (newer older : List Write) :
    p.after (newer ++ older) = (p.after older).after newer := by
  simp [after, List.foldr_append]

theorem after_blank (writes : List Write) : blank.after writes = layout writes := rfl

theorem opened_grows (p : Page) (indent : String) : ∃ added, p.opened indent = p.text ++ added := by
  unfold opened
  split
  · exact ⟨indent, rfl⟩
  · exact ⟨"", by simp⟩

theorem putLine_grows (indent : String) (p : Page) (line : List Char) :
    ∃ added, (putLine indent p line).text = p.text ++ added := by
  obtain ⟨added, h⟩ := p.opened_grows indent
  exact ⟨added ++ String.ofList line, by simp only [putLine, h, String.append_assoc]⟩

theorem foldl_putLine_grows (indent : String) (lines : List (List Char)) (p : Page) :
    ∃ added, (lines.foldl (putLine indent) p).text = p.text ++ added := by
  induction lines generalizing p with
  | nil => exact ⟨"", by simp⟩
  | cons line rest ih =>
    obtain ⟨first, h⟩ := putLine_grows indent p line
    obtain ⟨others, h'⟩ := ih (putLine indent p line)
    exact ⟨first ++ others, by rw [List.foldl_cons, h', h, String.append_assoc]⟩

theorem put_grows (p : Page) (write : Write) : ∃ added, (p.put write).text = p.text ++ added := by
  cases write with
  | openLine => exact ⟨"", by simp [put]⟩
  | text indent text =>
    simp only [put]
    split
    · exact ⟨text, rfl⟩
    · exact foldl_putLine_grows indent _ p
  | value indent value written =>
    simp only [put]
    split
    · exact ⟨"", by simp⟩
    · obtain ⟨added, h⟩ := p.opened_grows indent
      exact ⟨added ++ written, by simp only [h, String.append_assoc]⟩

/-- What is written is added behind the text that is there. -/
theorem after_grows (p : Page) (writes : List Write) :
    ∃ added, (p.after writes).text = p.text ++ added := by
  induction writes with
  | nil => exact ⟨"", by simp⟩
  | cons write writes ih =>
    obtain ⟨older, h⟩ := ih
    obtain ⟨newer, h'⟩ := put_grows (p.after writes) write
    exact ⟨older ++ newer, by rw [after_cons, h', h, String.append_assoc]⟩

/-- The page with text in front of what it has. -/
def behind (text : String) (p : Page) : Page := { p with text := text ++ p.text }

theorem opened_behind (text indent : String) (p : Page) :
    (p.behind text).opened indent = text ++ p.opened indent := by
  by_cases h : p.lineStart <;> simp [opened, behind, h, String.append_assoc]

theorem putLine_behind (text indent : String) (p : Page) (line : List Char) :
    putLine indent (p.behind text) line = (putLine indent p line).behind text := by
  simp only [putLine, opened_behind]
  simp only [behind, String.append_assoc]

theorem foldl_putLine_behind (text indent : String) (lines : List (List Char)) (p : Page) :
    lines.foldl (putLine indent) (p.behind text) = (lines.foldl (putLine indent) p).behind text := by
  induction lines generalizing p with
  | nil => rfl
  | cons line rest ih => rw [List.foldl_cons, List.foldl_cons, putLine_behind, ih]

theorem put_behind (text : String) (p : Page) (write : Write) :
    (p.behind text).put write = (p.put write).behind text := by
  cases write with
  | openLine => rfl
  | text indent words =>
    simp only [put]
    split
    · simp only [behind, String.append_assoc]
    · exact foldl_putLine_behind text indent _ p
  | value indent value written =>
    simp only [put]
    split
    · rfl
    · rw [opened_behind]
      simp only [behind, String.append_assoc]

/-- How writes are laid out does not depend on the text in front of them. -/
theorem after_behind (text : String) (p : Page) (writes : List Write) :
    (p.behind text).after writes = (p.after writes).behind text := by
  induction writes with
  | nil => rfl
  | cons write writes ih => rw [after_cons, ih, put_behind, after_cons]

/-- Writes that come to the same text whether or not a line was open before them. -/
def LineFree (writes : List Write) : Prop :=
  ∀ p q : Page, p.text = q.text → (p.after writes).text = (q.after writes).text

theorem LineFree.nil : LineFree [] := fun _ _ h => h

theorem LineFree.append {newer older : List Write} (hn : LineFree newer) (ho : LineFree older) :
    LineFree (newer ++ older) := by
  intro p q h
  rw [after_append, after_append]
  exact hn _ _ (ho p q h)

/-- A line that is opened first makes all that follows independent of what came before. -/
theorem LineFree.of_openLine (writes : List Write) : LineFree (writes ++ [.openLine]) := by
  intro p q h
  have same : p.put .openLine = q.put .openLine := by simp only [put, h]
  simp only [after_append, after_cons, after_nil, same]

theorem LineFree.text (text : String) : LineFree [.text "" text] := by
  intro p q h
  simp [put, h]

theorem LineFree.value (value written : String) : LineFree [.value "" value written] := by
  intro p q h
  have opened_empty (r : Page) : r.opened "" = r.text := by simp [opened]
  simp only [after_cons, after_nil, put, opened_empty, h]
  split
  · exact h
  · rfl

/-- Such writes add to any page what they come to on a blank one. -/
theorem LineFree.text_after {writes : List Write} (h : LineFree writes) (p : Page) :
    (p.after writes).text = p.text ++ (layout writes).text := by
  have same : p.text = (blank.behind p.text).text := by simp [behind, blank]
  rw [h p (blank.behind p.text) same, after_behind, after_blank]
  rfl

end Mustache.Page
