import Mathlib.Data.List.Chain
import Mustache.Proofs.Reading.Run

/-! Trees written out with a pair of delimiters, the trees that are written so that nothing in them
can be mistaken for something else, and the reading of one written tag. -/
namespace Mustache

/-- The characters behind the open delimiter that mark a kind of tag. -/
def Sigil.marks : Sigil → List Char
  | escaped => []
  | raw => ['&']
  | opening (.sect false) => ['#']
  | opening (.sect true) => ['^']
  | opening .parent => ['<']
  | opening .block => ['$']
  | closing => ['/']
  | inclusion => ['>']
  | comment => ['!']
  | delimiters => ['=']

namespace Delimiters

/-- A tag as it is written. -/
def tag (d : Delimiters) (sigil : Sigil) (name : String) : List Char :=
  d.opening.toList ++ (sigil.marks ++ (name.toList ++ d.closing.toList))

/-- Text between a tag that opens a level and the tag that closes it. -/
def enclose (d : Delimiters) (opener : Opener) (name : String) (inside : List Char) : List Char :=
  d.tag (.opening opener) name ++ (inside ++ d.tag .closing name)

end Delimiters

mutual

/-- A node as it is written. -/
def Node.print (d : Delimiters) : Node → List Char
  | .text text => text.toList
  | .interpolation name escaped => d.tag (if escaped then .escaped else .raw) name
  | .sect s => s.print d
  | .inclusion i => d.tag .inclusion i.name
  | .parent i overrides => d.enclose .parent i.name (Block.prints d overrides)
  | .block b => b.print d

def Section.print (d : Delimiters) : Section → List Char
  | ⟨name, inverted, _, children⟩ => d.enclose (.sect inverted) name (Node.prints d children)

def Block.print (d : Delimiters) : Block → List Char
  | ⟨name, children⟩ => d.enclose .block name (Node.prints d children)

def Node.prints (d : Delimiters) : List Node → List Char
  | [] => []
  | n :: rest => n.print d ++ Node.prints d rest

def Block.prints (d : Delimiters) : List Block → List Char
  | [] => []
  | b :: rest => b.print d ++ Block.prints d rest

end

/-- No white space in front. -/
def Text.Inked (cs : List Char) : Prop := ∀ c ∈ cs.head?, Text.isWhiteSpace c = false

/-- No white space around. -/
structure Text.Framed (cs : List Char) : Prop where
  first : Inked cs
  last : Inked cs.reverse

/-- Text that shares no character with the delimiters. -/
def Delimiters.Clear (d : Delimiters) (cs : List Char) : Prop :=
  ∀ c ∈ cs, c ∉ d.opening.toList ∧ c ∉ d.closing.toList

/-- A name that stands between delimiters without doubt: one word. -/
structure Delimiters.Word (d : Delimiters) (name : String) : Prop where
  some : name.toList ≠ []
  whole : ∀ c ∈ name.toList, Text.isWhiteSpace c = false
  clear : d.Clear name.toList

def Node.isText : Node → Bool
  | .text _ => true
  | .interpolation _ _ | .sect _ | .inclusion _ | .parent _ _ | .block _ => false

/-- Neighbours, of which one is no text. -/
def Node.Apart (n m : Node) : Prop := ¬ (n.isText = true ∧ m.isText = true)

/-- A node that can be told from its text, given that its parts can. -/
def Node.Clean (d : Delimiters) : Node → Prop
  | .text t => t.toList ≠ [] ∧ Text.Framed t.toList ∧ d.Clear t.toList
  | .interpolation name escaped => d.Word name ∧
      (escaped = true → ∀ c ∈ name.toList.head?, c ∉ ['#', '^', '/', '!', '>', '<', '$', '&', '='])
  | .sect s => d.Word s.name ∧ s.children.IsChain Apart
  | .inclusion i | .parent i _ => d.Word i.name ∧ i.indent = "" ∧ i.target = none
  | .block b => d.Word b.name ∧ b.children.IsChain Apart

section Decidable
variable (d : Delimiters)

-- each instance names the list or the option it looks at: all characters are many
instance (cs : List Char) : Decidable (Text.Inked cs) := Option.decidableForallMem _

instance (cs : List Char) : Decidable (Text.Framed cs) :=
  decidable_of_iff (Text.Inked cs ∧ Text.Inked cs.reverse)
    ⟨fun h => ⟨h.1, h.2⟩, fun h => ⟨h.1, h.2⟩⟩

instance (cs : List Char) : Decidable (d.Clear cs) := List.decidableBAll _ cs

instance (name : String) : Decidable (d.Word name) :=
  have : Decidable (∀ c ∈ name.toList, Text.isWhiteSpace c = false) := List.decidableBAll _ _
  decidable_of_iff (name.toList ≠ [] ∧ (∀ c ∈ name.toList, Text.isWhiteSpace c = false) ∧
    d.Clear name.toList) ⟨fun h => ⟨h.1, h.2.1, h.2.2⟩, fun h => ⟨h.1, h.2, h.3⟩⟩

instance : DecidableRel Node.Apart := fun n m =>
  inferInstanceAs (Decidable ¬ (n.isText = true ∧ m.isText = true))

instance : (n : Node) → Decidable (n.Clean d)
  | .text _ => inferInstanceAs (Decidable (_ ∧ _ ∧ _))
  | .interpolation name _ =>
    have : Decidable (∀ c ∈ name.toList.head?,
      c ∉ ['#', '^', '/', '!', '>', '<', '$', '&', '=']) := Option.decidableForallMem _
    inferInstanceAs (Decidable (_ ∧ (_ → _)))
  | .sect _ => inferInstanceAs (Decidable (_ ∧ _))
  | .inclusion ⟨_, _, none⟩ | .parent ⟨_, _, none⟩ _ =>
    inferInstanceAs (Decidable (_ ∧ _ ∧ (none : Option Template) = none))
  | .inclusion ⟨_, _, some _⟩ | .parent ⟨_, _, some _⟩ _ => isFalse fun h => nomatch h.2.2
  | .block _ => inferInstanceAs (Decidable (_ ∧ _))

end Decidable

namespace Text
variable {cs more mark tail : List Char}

theorem inked_append (h : Inked cs) (h' : Inked more) : Inked (cs ++ more) := by
  cases cs with
  | nil => exact h'
  | cons c rest => exact h

theorem inked_append_left (some : cs ≠ []) (h : Inked cs) (more : List Char) :
    Inked (cs ++ more) := by
  obtain ⟨c, rest, rfl⟩ := List.exists_cons_of_ne_nil some
  exact h

theorem framed_nil : Framed [] := ⟨nofun, nofun⟩

theorem framed_of_forall (h : ∀ c ∈ cs, isWhiteSpace c = false) : Framed cs where
  first c mem := h c (List.mem_of_head? mem)
  last c mem := h c (List.mem_reverse.1 (List.mem_of_head? mem))

theorem framed_append (h : Framed cs) (h' : Framed more) : Framed (cs ++ more) where
  first := inked_append h.first h'.first
  last := by
    rw [List.reverse_append]
    exact inked_append h'.last h.last

/-- Ink on a line is no blank. -/
theorem eq_nil_of_inked (h : Inked cs) (blank : cs.all isBlank = true) : cs = [] := by
  cases cs with
  | nil => rfl
  | cons c rest =>
    have space := isWhiteSpace_of_isBlank (List.all_eq_true.1 blank c List.mem_cons_self)
    rw [h c rfl] at space
    cases space

/-- A line that goes on with ink does not end. -/
theorem lineEnd?_of_inked (h : Inked cs) : (Cursor.lineEnd? cs).getD 0 = 0 := by
  cases cs with
  | nil => rfl
  | cons c rest =>
    have ink := h c rfl
    have visible : ¬ isBlank c = true := fun blank => by
      simp [isWhiteSpace_of_isBlank blank] at ink
    rw [Cursor.lineEnd?_cons_of_not visible]
    split <;> simp_all [isWhiteSpace]

/-- A mark that shares no character with a text does not begin in it. -/
theorem not_prefix_of_clear (some : mark ≠ []) (clear : ∀ c ∈ cs, c ∉ mark) :
    ∀ k < cs.length, ¬ mark <+: (cs ++ tail).drop k := by
  intro k hk here
  rw [List.drop_append_of_le_length (Nat.le_of_lt hk)] at here
  obtain ⟨c, rest, split⟩ : ∃ c rest, cs.drop k = c :: rest :=
    List.exists_cons_of_ne_nil (by simpa using hk)
  obtain ⟨m, more, rfl⟩ := List.exists_cons_of_ne_nil some
  rw [split, List.cons_append, List.cons_prefix_cons] at here
  refine clear c (List.mem_of_mem_drop (split ▸ List.mem_cons_self)) ?_
  rw [here.1]
  exact List.mem_cons_self

theorem occurrence?_of_clear (cs : List Char) (some : mark ≠ []) (clear : ∀ c ∈ cs, c ∉ mark) :
    occurrence? mark (cs ++ (mark ++ tail)) = Option.some cs.length := by
  refine occurrence?_eq_some_iff.2 ⟨?_, not_prefix_of_clear some clear⟩
  rw [List.drop_left]
  exact List.prefix_append _ _

theorem dropWhile_eq_self (h : ∀ c ∈ cs, isWhiteSpace c = false) :
    cs.dropWhile isWhiteSpace = cs := by
  cases cs with
  | nil => rfl
  | cons c rest => rw [List.dropWhile_cons_of_neg (by simp [h c List.mem_cons_self])]

theorem trim_eq_self (h : ∀ c ∈ cs, isWhiteSpace c = false) : trim cs = cs := by
  unfold trim
  rw [dropWhile_eq_self h, dropWhile_eq_self fun c mem => h c (List.mem_reverse.1 mem),
    List.reverse_reverse]

end Text

/-- No other character makes a tag more than an escaped variable. -/
theorem Sigil.ofChar?_eq_none {c : Char} (h : c ∉ ['#', '^', '/', '!', '>', '<', '$', '&', '=']) :
    ofChar? c = none := by
  unfold ofChar?
  split <;> simp_all

theorem checkName_word {d : Delimiters} {name : String} (h : d.Word name) :
    checkName name.toList = .ok name := by
  unfold checkName
  dsimp only
  rw [Text.trim_eq_self h.whole, if_neg (by simp [h.some]), if_neg (by simpa using h.whole),
    String.ofList_toList]

/-- What stands behind the open delimiter is taken for a tag of its kind. -/
theorem Sigil.ofRest_marks {d : Delimiters} {sigil : Sigil} {name : String} (h : d.Word name)
    (plain : sigil = .escaped → ∀ c ∈ name.toList.head?, Sigil.ofChar? c = none)
    (tail : List Char) :
    Sigil.ofRest d (sigil.marks ++ (name.toList ++ tail)) =
      (sigil, sigil.marks.length, d.closing.toList) := by
  cases sigil with
  | escaped =>
    obtain ⟨c, rest, first⟩ := List.exists_cons_of_ne_nil h.some
    have none := plain rfl c (by rw [first]; rfl)
    -- a third brace would be a character of the open delimiter
    have single : ¬ (d.opening = Delimiters.standard.opening ∧ c = '\x7b') := by
      rintro ⟨standard, rfl⟩
      have other := (h.clear '\x7b' (by rw [first]; exact List.mem_cons_self)).1
      rw [standard] at other
      exact other (by decide)
    rw [first]
    simp only [marks, List.nil_append, List.cons_append, ofRest, if_neg single, none,
      List.length_nil]
  | opening opener =>
    rcases opener with (_ | _) | _ | _ <;> simp [marks, ofRest, ofChar?]
  | raw | closing | inclusion | comment | delimiters => simp [marks, ofRest, ofChar?]

/-- A cursor in front of some text, with no blanks around it. -/
structure Cursor.At (source : String) (d : ValidDelimiters) (c : Cursor) (text tail : List Char) :
    Prop where
  delimiters : c.delimiters = d
  passed : ∃ passed, (Cursor.ofSource source d).Passes passed c
  margin : Text.Inked c.margin
  rest : c.rest = text ++ tail
  behind : Text.Inked tail

namespace Cursor
variable {source : String} {d : ValidDelimiters} {c : Cursor} {text more tail : List Char}

theorem inked_margin {margin : List Char} (h : Text.Inked margin)
    (ends : Text.Inked text.reverse) : Text.Inked (text.foldl widen margin) := by
  rcases List.eq_nil_or_concat text with rfl | ⟨front, last, rfl⟩
  · exact h
  · rw [List.concat_eq_append] at ends ⊢
    have ink : Text.isWhiteSpace last = false := ends last (by simp)
    have other : last ≠ '\n' := by
      rintro rfl
      cases ink
    rw [List.foldl_append, List.foldl_cons, List.foldl_nil, widen, if_neg other]
    intro m mem
    obtain rfl := Option.some.inj mem
    exact ink

/-- The first part of what stands at a cursor. -/
theorem At.first (h : c.At source d (text ++ more) tail) (behind : Text.Inked more) :
    c.At source d text (more ++ tail) :=
  ⟨h.delimiters, h.passed, h.margin, by rw [h.rest, List.append_assoc],
    Text.inked_append behind h.behind⟩

/-- The second part, behind the first. -/
theorem At.second (h : c.At source d (text ++ more) tail) (ends : Text.Inked text.reverse) :
    (c.skip text.length).At source d more tail where
  delimiters := h.delimiters
  passed := by
    obtain ⟨passed, before⟩ := h.passed
    exact ⟨_, before.trans (c.passes_skip text.length)⟩
  margin := by
    rw [skip, h.rest, List.append_assoc, List.take_left]
    exact inked_margin h.margin ends
  rest := by rw [rest_skip, h.rest, List.append_assoc, List.drop_left]
  behind := h.behind

/-- With no blanks around it a tag takes nothing of its line away. -/
theorem through_of_inked {directive : Directive} {after : Cursor} (margin : Text.Inked c.margin)
    (behind : Text.Inked after.rest) (here : after.delimiters = c.delimiters)
    (same : directive.delimitersAfter c.delimiters = c.delimiters) :
    ∃ alone, c.through 0 directive after =
      (⟨"", ⟨directive, c.place, after.place, alone, "", c.delimiters.val⟩⟩, after) := by
  have alike : { after with delimiters := c.delimiters } = after := by rw [← here]
  unfold through
  rw [skip_zero]
  cases line : aloneUntil? c after directive with
  | none => exact ⟨false, by simp [line, same, alike]⟩
  | some n =>
    -- the tag may be all of its source: then nothing stands around it that could be taken
    obtain ⟨blanks, ends⟩ := aloneUntil?_eq_some line
    have none : c.margin = [] := Text.eq_nil_of_inked margin blanks
    have nothing := Text.lineEnd?_of_inked behind
    rw [ends, Option.getD_some] at nothing
    subst nothing
    exact ⟨true, by simp [line, same, alike, none]⟩

/-- A tag that is written at a cursor is read there. -/
theorem At.step_tag {sigil : Sigil} {name : String} {directive : Directive}
    (h : c.At source d (d.val.tag sigil name) tail) (word : d.val.Word name)
    (plain : sigil = .escaped → ∀ ch ∈ name.toList.head?, Sigil.ofChar? ch = none)
    (content : Directive.ofContent sigil name.toList = .ok directive)
    (same : directive.delimitersAfter d = d) :
    ∃ alone, c.step = .ok (⟨"", ⟨directive, c.place,
        (c.skip (d.val.tag sigil name).length).place, alone, "", d.val⟩⟩,
      c.skip (d.val.tag sigil name).length) := by
  obtain ⟨rfl, -, margin, rest, behind⟩ := h
  obtain ⟨k, hk⟩ : ∃ k, (c.delimiters.val.tag sigil name).length = k := ⟨_, rfl⟩
  have closing := Delimiters.toList_ne_nil_of_usable c.delimiters.property.2
  have opening := Delimiters.toList_ne_nil_of_usable c.delimiters.property.1
  have unread : (c.skip k).rest = tail := by
    rw [rest_skip, rest, ← hk, List.drop_left]
  simp only [Delimiters.tag, List.append_assoc] at rest
  have kind : c.sigil = (sigil, sigil.marks.length, c.delimiters.val.closing.toList) := by
    rw [Cursor.sigil, rest, List.drop_left, Sigil.ofRest_marks word plain]
  have start : c.contentStart = c.delimiters.val.opening.toList.length + sigil.marks.length := by
    rw [contentStart, kind]
  have inside : c.rest.drop c.contentStart =
      name.toList ++ (c.delimiters.val.closing.toList ++ tail) := by
    rw [start, ← List.drop_drop, rest, List.drop_left, List.drop_left]
  have read : c.readTag = .ok (directive, c.skip k) := by
    refine readTag_ok_iff.2 ⟨name.toList.length, ?_, ?_, ?_⟩
    · rw [inside, kind]
      exact Text.occurrence?_of_clear _ closing fun ch mem => (word.clear ch mem).2
    · rw [inside, kind, List.take_left]
      exact content
    · rw [start, kind, ← hk]
      simp only [Delimiters.tag, List.length_append, Nat.add_assoc]
  have found : Text.occurrence? c.delimiters.val.opening.toList c.rest = some 0 := by
    rw [rest]
    exact Text.occurrence?_of_clear [] opening (List.forall_mem_nil _)
  rw [← unread] at behind
  obtain ⟨alone, made⟩ := through_of_inked margin behind rfl same
  rw [hk]
  exact ⟨alone, step_ok_iff.2 ⟨0, directive, c.skip k, found, read, made.symm⟩⟩

end Cursor

end Mustache
