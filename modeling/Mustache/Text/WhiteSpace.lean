/-! White space, as tag names and delimiters see it, and the blanks that may surround a tag which
stands alone on its line. Trimming and cutting into words are stated on lists of characters. -/
namespace Mustache.Text

/-- The Unicode property White_Space: twenty-five code points. -/
def isWhiteSpace (c : Char) : Bool :=
  let n := c.toNat
  (0x09 ≤ n && n ≤ 0x0D) || n == 0x20 || n == 0x85 || n == 0xA0 || n == 0x1680 ||
    (0x2000 ≤ n && n ≤ 0x200A) || n == 0x2028 || n == 0x2029 || n == 0x202F || n == 0x205F ||
    n == 0x3000

/-- A blank is a space or a tab. -/
def isBlank (c : Char) : Bool := c == ' ' || c == '\t'

theorem isWhiteSpace_of_isBlank {c : Char} (h : isBlank c = true) : isWhiteSpace c = true := by
  simp only [isBlank, Bool.or_eq_true, beq_iff_eq] at h
  rcases h with rfl | rfl <;> rfl

theorem not_isBlank_newline : isBlank '\n' = false := rfl

/-- The text without the white space at its two ends. -/
def trim (cs : List Char) : List Char :=
  ((cs.dropWhile isWhiteSpace).reverse.dropWhile isWhiteSpace).reverse

/-- Cuts the text at white space, given the word under construction, last character first. -/
def wordsFrom (word : List Char) : List Char → List (List Char)
  | [] => if word.isEmpty then [] else [word.reverse]
  | c :: rest =>
    if isWhiteSpace c then
      if word.isEmpty then wordsFrom [] rest else word.reverse :: wordsFrom [] rest
    else wordsFrom (c :: word) rest

/-- The maximal runs of characters that are not white space, in order. -/
def words (cs : List Char) : List (List Char) := wordsFrom [] cs

theorem ne_nil_of_mem_wordsFrom {word cs w : List Char} (h : w ∈ wordsFrom word cs) : w ≠ [] := by
  induction cs generalizing word with
  | nil =>
    simp only [wordsFrom] at h
    split at h <;> simp_all
  | cons c rest ih =>
    simp only [wordsFrom] at h
    split at h
    · split at h
      · exact ih h
      · rcases List.mem_cons.1 h with rfl | h
        · simp_all
        · exact ih h
    · exact ih h

theorem wordsFrom_all {word cs w : List Char} (hw : ∀ c ∈ word, isWhiteSpace c = false)
    (h : w ∈ wordsFrom word cs) : ∀ c ∈ w, isWhiteSpace c = false := by
  induction cs generalizing word with
  | nil =>
    simp only [wordsFrom] at h
    split at h <;> simp_all
  | cons c rest ih =>
    simp only [wordsFrom] at h
    split at h
    · split at h
      · exact ih (by simp) h
      · rcases List.mem_cons.1 h with rfl | h
        · simpa using hw
        · exact ih (by simp) h
    · exact ih (by simp_all) h

/-- A word is never empty. -/
theorem ne_nil_of_mem_words {cs w : List Char} (h : w ∈ words cs) : w ≠ [] :=
  ne_nil_of_mem_wordsFrom h

/-- A word holds no white space. -/
theorem words_all {cs w : List Char} (h : w ∈ words cs) : ∀ c ∈ w, isWhiteSpace c = false :=
  wordsFrom_all (by simp) h

end Mustache.Text
