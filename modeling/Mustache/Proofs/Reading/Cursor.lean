import Mustache.Scan

/-! What a cursor reads in one step, and what the step depends on: not on the place where the cursor
stands, and not on the text behind the next line end. -/
namespace Mustache

namespace Text
variable {mark a b cs : List Char} {n : Nat}

theorem occurrence?_eq_some_iff :
    occurrence? mark cs = some n ↔ mark <+: cs.drop n ∧ ∀ k < n, ¬ mark <+: cs.drop k := by
  constructor
  · exact fun h => ⟨occurrence?_spec h, fun k hk => occurrence?_least h hk⟩
  · rintro ⟨here, before⟩
    cases found : occurrence? mark cs with
    | none => exact absurd here (occurrence?_eq_none found n)
    | some m =>
      rcases Nat.lt_trichotomy m n with lt | rfl | gt
      · exact absurd (occurrence?_spec found) (before m lt)
      · rfl
      · exact absurd here (occurrence?_least found gt)

/-- More text behind a mark does not bring it further to the left. -/
theorem occurrence?_append (h : occurrence? mark a = some n) (b : List Char) :
    occurrence? mark (a ++ b) = some n := by
  have fits := occurrence?_length h
  obtain ⟨here, before⟩ := occurrence?_eq_some_iff.1 h
  refine occurrence?_eq_some_iff.2 ⟨?_, fun k hk there => before k hk ?_⟩
  · rw [List.drop_append_of_le_length (by omega)]
    exact here.trans (List.prefix_append _ _)
  · rw [List.drop_append_of_le_length (by omega)] at there
    refine List.prefix_of_prefix_length_le there (List.prefix_append _ _) ?_
    rw [List.length_drop]
    omega

/-- A mark that lies in the first part of a text is found there. -/
theorem occurrence?_of_append (h : occurrence? mark (a ++ b) = some n)
    (fits : n + mark.length ≤ a.length) : occurrence? mark a = some n := by
  obtain ⟨here, before⟩ := occurrence?_eq_some_iff.1 h
  refine occurrence?_eq_some_iff.2 ⟨?_, fun k hk there => before k hk ?_⟩
  · rw [List.drop_append_of_le_length (by omega)] at here
    refine List.prefix_of_prefix_length_le here (List.prefix_append _ _) ?_
    rw [List.length_drop]
    omega
  · rw [List.drop_append_of_le_length (by omega)]
    exact there.trans (List.prefix_append _ _)

/-- Text in front of which the mark does not start can be passed before the search. -/
theorem occurrence?_drop (h : ∀ k < n, ¬ mark <+: cs.drop k) :
    occurrence? mark cs = (occurrence? mark (cs.drop n)).map (n + ·) := by
  cases later : occurrence? mark (cs.drop n) with
  | some m =>
    obtain ⟨here, before⟩ := occurrence?_eq_some_iff.1 later
    rw [List.drop_drop] at here
    refine occurrence?_eq_some_iff.2 ⟨here, fun k hk there => ?_⟩
    rcases Nat.lt_or_ge k n with lt | ge
    · exact h k lt there
    · have hk : k < n + m := hk
      refine before (k - n) (by omega) ?_
      rwa [List.drop_drop, show n + (k - n) = k by omega]
  | none =>
    cases found : occurrence? mark cs with
    | none => rfl
    | some m =>
      have here := occurrence?_spec found
      rcases Nat.lt_or_ge m n with lt | ge
      · exact absurd here (h m lt)
      · refine absurd ?_ (occurrence?_eq_none later (m - n))
        rwa [List.drop_drop, show n + (m - n) = m by omega]

/-- A text holds no newline, or it has a last one. -/
theorem no_newline_or_last (cs : List Char) :
    '\n' ∉ cs ∨ ∃ before line, cs = before ++ '\n' :: line ∧ '\n' ∉ line := by
  induction cs with
  | nil => exact .inl List.not_mem_nil
  | cons c rest ih =>
    rcases ih with none | ⟨before, line, rfl, last⟩
    · by_cases hc : c = '\n'
      · exact .inr ⟨[], rest, by rw [hc, List.nil_append], none⟩
      · exact .inl (by simp [Ne.symm hc, none])
    · exact .inr ⟨c :: before, line, rfl, last⟩

end Text

namespace Position

/-- The same place in a source with more bytes and lines in front of it. -/
def shift (bytes lines : Nat) (p : Position) : Position :=
  ⟨bytes + p.offset, lines + p.line, p.column⟩

theorem shift_advance (bytes lines : Nat) (p : Position) (text : List Char) :
    (p.shift bytes lines).advance text = (p.advance text).shift bytes lines := by
  induction text generalizing p with
  | nil => rfl
  | cons c rest ih =>
    rw [advance_cons, advance_cons, ← ih]
    congr 1
    unfold next shift
    split <;> simp only [Nat.add_assoc]

/-- At the start of a line, a place differs from the start of the source in the text passed. -/
theorem advance_start {before : List Char} (line : before = [] ∨ before.getLast? = some '\n') :
    start.advance before = start.shift (Text.byteLength before) (before.count '\n') := by
  have bytes := offset_advance start before
  have lines := line_advance start before
  have column : (start.advance before).column = 1 := by
    rcases line with rfl | last
    · rfl
    · obtain ⟨front, rfl⟩ := List.getLast?_eq_some_iff.1 last
      exact column_advance_line List.not_mem_nil start front
  generalize start.advance before = p at bytes lines column ⊢
  cases p
  simp only [start, shift, Position.mk.injEq] at bytes lines column ⊢
  omega

end Position

/-- The same error some lines further down. -/
def ParseError.shift (lines : Nat) (e : ParseError) : ParseError :=
  ⟨lines + e.line, e.column, e.kind⟩

def Tag.shift (bytes lines : Nat) (t : Tag) : Tag :=
  { t with start := t.start.shift bytes lines, stop := t.stop.shift bytes lines }

def Segment.shift (bytes lines : Nat) (s : Segment) : Segment := ⟨s.lead, s.tag.shift bytes lines⟩

def Ending.shift (bytes lines : Nat) : Ending → Ending
  | .finished text place d => .finished text (place.shift bytes lines) d
  | .failed error => .failed (error.shift lines)

/-- The same segment with more text in front of it. -/
def Segment.behind (text : String) (s : Segment) : Segment := ⟨text ++ s.lead, s.tag⟩

def Ending.behind (text : String) : Ending → Ending
  | .finished last place d => .finished (text ++ last) place d
  | .failed error => .failed error

namespace Cursor
variable {c next : Cursor} {segment : Segment} {n m : Nat} {text tail rest margin : List Char}

/-! Skipping -/

theorem skip_skip (c : Cursor) (n m : Nat) : (c.skip n).skip m = c.skip (n + m) := by
  simp only [skip, List.drop_drop, List.take_add, Position.advance_append, List.foldl_append]

@[simp] theorem skip_zero (c : Cursor) : c.skip 0 = c := rfl

theorem skip_of_length_le (h : c.rest.length ≤ n) : c.skip n = c.skip c.rest.length := by
  simp only [skip, List.take_of_length_le h, List.drop_of_length_le h,
    List.take_of_length_le (Nat.le_refl _), List.drop_of_length_le (Nat.le_refl _)]

/-- The kind of the tag that stands here, the number of characters that mark it, and its end. -/
def sigil (c : Cursor) : Sigil × Nat × List Char :=
  Sigil.ofRest c.delimiters.val (c.rest.drop c.delimiters.val.opening.toList.length)

/-- The number of characters in front of the content of the tag that stands here. -/
def contentStart (c : Cursor) : Nat := c.delimiters.val.opening.toList.length + c.sigil.2.1

theorem readTag_eq (c : Cursor) :
    c.readTag = match Text.occurrence? c.sigil.2.2 (c.rest.drop c.contentStart) with
      | none =>
        .error (.at (c.skip c.rest.length).place (.endBefore (String.ofList c.sigil.2.2)))
      | some n =>
        match Directive.ofContent c.sigil.1 ((c.rest.drop c.contentStart).take n) with
        | .error kind => .error (.at c.place kind)
        | .ok directive =>
          .ok (directive, c.skip (c.contentStart + n + c.sigil.2.2.length)) := by
  have read : Sigil.ofRest c.delimiters.val (c.skip c.delimiters.val.opening.toList.length).rest =
      c.sigil := rfl
  unfold readTag
  dsimp only
  rw [read]
  obtain ⟨width, hw⟩ : ∃ width, c.sigil.2.1 = width := ⟨_, rfl⟩
  have start : c.contentStart = c.delimiters.val.opening.toList.length + width := by
    rw [contentStart, hw]
  rw [hw, skip_skip, ← start, rest_skip, skip_skip]
  rw [skip_of_length_le (n := c.contentStart + _)]
  · cases Text.occurrence? c.sigil.2.2 (c.rest.drop c.contentStart) with
    | none => rfl
    | some n =>
      cases content : Directive.ofContent c.sigil.1 ((c.rest.drop c.contentStart).take n) with
      | error kind => simp only [content]
      | ok directive => simp only [content, skip_skip, Nat.add_assoc]
  · rw [List.length_drop]
    omega

theorem readTag_ok_iff {directive : Directive} {after : Cursor} :
    c.readTag = .ok (directive, after) ↔ ∃ n,
      Text.occurrence? c.sigil.2.2 (c.rest.drop c.contentStart) = some n ∧
      Directive.ofContent c.sigil.1 ((c.rest.drop c.contentStart).take n) = .ok directive ∧
      after = c.skip (c.contentStart + n + c.sigil.2.2.length) := by
  rw [readTag_eq]
  constructor
  · intro h
    split at h
    · cases h
    · rename_i n found
      split at h
      · cases h
      · rename_i content
        cases h
        exact ⟨n, found, content, rfl⟩
  · rintro ⟨n, found, content, rfl⟩
    simp only [found, content]

/-- What a step makes of a tag that stands behind `n` characters. -/
def through (c : Cursor) (n : Nat) (directive : Directive) (after : Cursor) : Segment × Cursor :=
  let start := c.skip n
  let line := aloneUntil? start after directive
  let next := after.skip (line.getD 0)
  (⟨String.ofList (c.rest.take n),
    { directive
      start := start.place
      stop := next.place
      alone := line.isSome
      indent := if line.isSome then String.ofList start.margin.reverse else ""
      delimiters := c.delimiters.val }⟩,
    { next with delimiters := directive.delimitersAfter c.delimiters })

theorem step_eq (c : Cursor) :
    c.step = match Text.occurrence? c.delimiters.val.opening.toList c.rest with
      | none =>
        .error (.finished (String.ofList c.rest) (c.skip c.rest.length).place c.delimiters.val)
      | some n =>
        match (c.skip n).readTag with
        | .error error => .error (.failed error)
        | .ok (directive, after) => .ok (c.through n directive after) := rfl

theorem step_ok_iff :
    c.step = .ok (segment, next) ↔ ∃ n directive after,
      Text.occurrence? c.delimiters.val.opening.toList c.rest = some n ∧
      (c.skip n).readTag = .ok (directive, after) ∧
      (segment, next) = c.through n directive after := by
  rw [step_eq]
  constructor
  · intro h
    split at h
    · cases h
    · rename_i n found
      split at h
      · cases h
      · rename_i directive after read
        cases h
        exact ⟨n, directive, after, found, read, rfl⟩
  · rintro ⟨n, directive, after, found, read, h⟩
    simp only [found, read, h]

/-! The place where a cursor stands -/

/-- The same cursor in a source with more bytes and lines in front of it. -/
def shift (bytes lines : Nat) (c : Cursor) : Cursor := { c with place := c.place.shift bytes lines }

theorem skip_shift (bytes lines : Nat) (c : Cursor) (n : Nat) :
    (c.shift bytes lines).skip n = (c.skip n).shift bytes lines := by
  simp only [skip, shift, Position.shift_advance]

theorem readTag_shift (bytes lines : Nat) (c : Cursor) :
    (c.shift bytes lines).readTag =
      (c.readTag.map fun p => (p.1, p.2.shift bytes lines)).mapError (ParseError.shift lines) := by
  rw [readTag_eq, readTag_eq]
  have same : (c.shift bytes lines).sigil = c.sigil := rfl
  have start : (c.shift bytes lines).contentStart = c.contentStart := rfl
  have rest : (c.shift bytes lines).rest = c.rest := rfl
  rw [same, start, rest]
  cases Text.occurrence? c.sigil.2.2 (c.rest.drop c.contentStart) with
  | none =>
    rw [skip_shift]
    rfl
  | some n =>
    dsimp only
    cases Directive.ofContent c.sigil.1 ((c.rest.drop c.contentStart).take n) with
    | error kind => rfl
    | ok directive =>
      simp only [skip_shift]
      rfl

theorem through_shift (bytes lines : Nat) (c : Cursor) (n : Nat) (directive : Directive)
    (after : Cursor) :
    (c.shift bytes lines).through n directive (after.shift bytes lines) =
      (c.through n directive after).map (Segment.shift bytes lines) (shift bytes lines) := by
  simp only [through, skip_shift, aloneUntil?, Prod.map]
  rfl

/-- Reading does not depend on the place where it begins. -/
theorem step_shift (bytes lines : Nat) (c : Cursor) :
    (c.shift bytes lines).step =
      (c.step.map (Prod.map (Segment.shift bytes lines) (shift bytes lines))).mapError
        (Ending.shift bytes lines) := by
  rw [step_eq, step_eq]
  have delimiters : (c.shift bytes lines).delimiters = c.delimiters := rfl
  have rest : (c.shift bytes lines).rest = c.rest := rfl
  rw [delimiters, rest]
  cases Text.occurrence? c.delimiters.val.opening.toList c.rest with
  | none =>
    rw [skip_shift]
    rfl
  | some n =>
    simp only [skip_shift, readTag_shift]
    cases (c.skip n).readTag with
    | error e => rfl
    | ok p => exact congrArg Except.ok (through_shift bytes lines c n p.1 p.2)

/-! What precedes a place on its line -/

theorem foldl_widen (h : '\n' ∉ text) (margin : List Char) :
    text.foldl widen margin = text.reverse ++ margin := by
  induction text generalizing margin with
  | nil => rfl
  | cons c rest ih =>
    have other : c ≠ '\n' := fun e => h (e ▸ List.mem_cons_self)
    rw [List.foldl_cons, ih fun mem => h (List.mem_cons_of_mem _ mem), widen, if_neg other]
    simp

/-- Behind a newline only the last line counts. -/
theorem foldl_widen_line {before line : List Char} (h : '\n' ∉ line) (margin : List Char) :
    (before ++ '\n' :: line).foldl widen margin = line.reverse := by
  rw [List.foldl_append, List.foldl_cons, foldl_widen h]
  simp [widen]

/-- A place is at the start of a line where nothing precedes it. -/
theorem foldl_widen_eq_nil :
    text.foldl widen margin = [] ↔ (text = [] ∧ margin = []) ∨ text.getLast? = some '\n' := by
  rcases Text.no_newline_or_last text with none | ⟨before, line, rfl, last⟩
  · rw [foldl_widen none]
    have unended : text.getLast? ≠ some '\n' := fun e => none (List.mem_of_getLast? e)
    simp [unended]
  · rw [foldl_widen_line last]
    rcases List.eq_nil_or_concat line with rfl | ⟨front, c, rfl⟩
    · simp
    · have other : c ≠ '\n' := fun e => last (by simp [e])
      simp [List.getLast?_append, List.getLast?_cons, other]

theorem lineEnd?_cons {c : Char} (blank : Text.isBlank c = true) (rest : List Char) :
    lineEnd? (c :: rest) = (lineEnd? rest).map (· + 1) := by
  unfold lineEnd?
  simp only [List.takeWhile_cons, List.dropWhile_cons, blank, if_true, List.length_cons]
  split <;> rfl

theorem lineEnd?_cons_of_not {c : Char} (visible : ¬ Text.isBlank c = true) (rest : List Char) :
    lineEnd? (c :: rest) = match c :: rest with
      | '\n' :: _ => some 1
      | '\r' :: '\n' :: _ => some 2
      | _ => none := by
  unfold lineEnd?
  rw [List.takeWhile_cons_of_neg visible, List.dropWhile_cons_of_neg visible]
  split <;> simp_all

/-- Where a line ends: behind a newline, or with the source. -/
theorem lineEnd?_spec (h : lineEnd? rest = some n) :
    n ≤ rest.length ∧ ((∃ front, rest.take n = front ++ ['\n']) ∨
      n = rest.length ∧ rest.all Text.isBlank = true) := by
  induction rest generalizing n with
  | nil =>
    obtain rfl := Option.some.inj h
    exact ⟨Nat.le_refl 0, .inr ⟨rfl, rfl⟩⟩
  | cons c rest ih =>
    by_cases blank : Text.isBlank c = true
    · rw [lineEnd?_cons blank] at h
      obtain ⟨m, hm, rfl⟩ := Option.map_eq_some_iff.1 h
      obtain ⟨fits, ⟨front, line⟩ | ⟨all, blanks⟩⟩ := ih hm
      · exact ⟨Nat.succ_le_succ fits, .inl ⟨c :: front, by rw [List.take_succ_cons, line]; rfl⟩⟩
      · exact ⟨Nat.succ_le_succ fits, .inr ⟨by rw [all, List.length_cons], by simp [blank, blanks]⟩⟩
    · rw [lineEnd?_cons_of_not blank] at h
      split at h
      · obtain rfl := Option.some.inj h
        exact ⟨by simp_all, .inl ⟨[], by simp_all⟩⟩
      · obtain rfl := Option.some.inj h
        exact ⟨by simp_all, .inl ⟨['\r'], by simp_all⟩⟩
      · cases h

/-- Text behind a newline does not change where the line ends. -/
theorem lineEnd?_append (h : rest.getLast? = some '\n') (tail : List Char) :
    lineEnd? (rest ++ tail) = lineEnd? rest := by
  induction rest with
  | nil => cases h
  | cons c rest ih =>
    by_cases blank : Text.isBlank c = true
    · cases rest with
      | nil =>
        obtain rfl := Option.some.inj h
        cases blank
      | cons d rest =>
        rw [List.cons_append, lineEnd?_cons blank, lineEnd?_cons blank, ih h]
    · rw [List.cons_append, lineEnd?_cons_of_not blank, lineEnd?_cons_of_not blank]
      cases rest with
      | nil =>
        obtain rfl := Option.some.inj h
        rfl
      | cons d rest => split <;> simp_all

/-- Where only blanks precede a cursor on its line, nothing does. -/
def Fresh (c : Cursor) : Prop := c.margin.all Text.isBlank = true → c.margin = []

theorem fresh_ofSource (source : String) (d : ValidDelimiters) : (ofSource source d).Fresh :=
  fun _ => rfl

/-- The mark that ends a tag does not end in white space. -/
theorem close_sigil (c : Cursor) :
    ∃ front last, c.sigil.2.2 = front ++ [last] ∧ Text.isWhiteSpace last = false := by
  have usable := c.delimiters.property.2
  obtain ⟨front, last, closing⟩ :
      ∃ front last, c.delimiters.val.closing.toList = front ++ [last] := by
    rcases List.eq_nil_or_concat c.delimiters.val.closing.toList with none | ⟨front, last, h⟩
    · exact absurd none (Delimiters.toList_ne_nil_of_usable usable)
    · exact ⟨front, last, by rw [h, List.concat_eq_append]⟩
  have visible : Text.isWhiteSpace last = false :=
    Delimiters.not_isWhiteSpace_of_usable usable (by simp [closing])
  unfold sigil Sigil.ofRest
  rw [closing]
  split
  · exact ⟨front, last, rfl, visible⟩
  · split
    · exact ⟨'\x7d' :: front, last, rfl, visible⟩
    · split <;> exact ⟨front, last, rfl, visible⟩

/-- Behind a tag stands the last character of its mark. -/
theorem margin_readTag {directive : Directive} {after : Cursor}
    (h : c.readTag = .ok (directive, after)) :
    ∃ last before, after.margin = last :: before ∧ Text.isWhiteSpace last = false := by
  obtain ⟨n, found, -, rfl⟩ := readTag_ok_iff.1 h
  obtain ⟨front, last, close, visible⟩ := c.close_sigil
  have mark := List.prefix_iff_eq_take.1 (Text.occurrence?_spec found)
  rw [List.drop_drop] at mark
  have other : last ≠ '\n' := by
    rintro rfl
    cases visible
  refine ⟨last, front.foldl widen ((c.rest.take (c.contentStart + n)).foldl widen c.margin), ?_,
    visible⟩
  simp only [skip]
  rw [List.take_add, ← mark, close, List.foldl_append, List.foldl_append, List.foldl_cons,
    List.foldl_nil, widen, if_neg other]

/-- What a step finds out about the line of a tag. -/
theorem aloneUntil?_eq_some {start after : Cursor} {directive : Directive}
    (h : aloneUntil? start after directive = some n) :
    start.margin.all Text.isBlank = true ∧ lineEnd? after.rest = some n := by
  unfold aloneUntil? at h
  split at h
  · rename_i alone
    exact ⟨(Bool.and_eq_true_iff.1 alone).2, h⟩
  · cases h

theorem fresh_step (h : c.step = .ok (segment, next)) : next.Fresh := by
  obtain ⟨n, directive, after, -, read, made⟩ := step_ok_iff.1 h
  obtain ⟨last, before, margin, visible⟩ := margin_readTag read
  have ink : Text.isBlank last = false := by
    rw [← Bool.not_eq_true]
    exact fun blank => by simp [Text.isWhiteSpace_of_isBlank blank] at visible
  obtain ⟨-, rfl⟩ := Prod.mk.inj made
  change ((after.skip _).margin.all Text.isBlank = true → (after.skip _).margin = [])
  -- either the ink of the tag is still on the line, or a new line has begun
  cases line : aloneUntil? (c.skip n) after directive with
  | none => simp [margin, ink]
  | some k =>
    obtain ⟨-, ends⟩ := aloneUntil?_eq_some line
    simp only [skip, Option.getD_some]
    rcases (lineEnd?_spec ends).2 with ⟨front, newline⟩ | ⟨rfl, blanks⟩
    · rw [newline, foldl_widen_line List.not_mem_nil]
      exact fun _ => rfl
    · have none : '\n' ∉ after.rest := fun mem => by
        simpa [Text.not_isBlank_newline] using List.all_eq_true.1 blanks _ mem
      rw [List.take_length, foldl_widen none, margin]
      simp [ink]

/-- Behind a tag that stood alone a new line begins, or nothing is left. -/
theorem margin_step (h : c.step = .ok (segment, next)) (alone : segment.tag.alone = true) :
    next.margin = [] ∨ next.rest = [] := by
  obtain ⟨n, directive, after, -, -, made⟩ := step_ok_iff.1 h
  obtain ⟨rfl, rfl⟩ := Prod.mk.inj made
  change (after.skip _).margin = [] ∨ (after.skip _).rest = []
  obtain ⟨k, line⟩ := Option.isSome_iff_exists.1 alone
  obtain ⟨-, ends⟩ := aloneUntil?_eq_some line
  rw [line]
  simp only [skip, Option.getD_some]
  rcases (lineEnd?_spec ends).2 with ⟨front, newline⟩ | ⟨rfl, -⟩
  · rw [newline]
    exact .inl (foldl_widen_line List.not_mem_nil _)
  · exact .inr (List.drop_length)

/-- Blanks on a line in front of a tag are the end of the text in front of it, and the line begins in
front of the blanks. -/
theorem take_of_blank (fresh : c.Fresh) (blank : (c.skip n).margin.all Text.isBlank = true) :
    ∃ kept, c.rest.take n = kept ++ (c.skip n).margin.reverse ∧
      kept.foldl widen c.margin = [] := by
  obtain ⟨lead, hl⟩ : ∃ lead, c.rest.take n = lead := ⟨_, rfl⟩
  simp only [skip, hl] at blank ⊢
  rcases Text.no_newline_or_last lead with none | ⟨before, inside, rfl, last⟩
  · rw [foldl_widen none] at blank ⊢
    -- the blanks begin where the cursor stands, so only there can the line begin
    have margin : c.margin = [] := fresh (by simp_all)
    exact ⟨[], by simp [margin]⟩
  · rw [foldl_widen_line last]
    refine ⟨before ++ ['\n'], by simp, ?_⟩
    exact foldl_widen_line List.not_mem_nil _

/-- The indent that a tag takes away is the end of the text in front of it, and the line begins in
front of the indent. -/
theorem lead_step (fresh : c.Fresh) (h : c.step = .ok (segment, next)) :
    ∃ kept, segment.lead = kept ++ segment.tag.indent ∧
      (segment.tag.alone = true → kept.toList.foldl widen c.margin = []) := by
  obtain ⟨n, directive, after, -, -, made⟩ := step_ok_iff.1 h
  obtain ⟨rfl, rfl⟩ := Prod.mk.inj made
  cases line : aloneUntil? (c.skip n) after directive with
  | none => exact ⟨String.ofList (c.rest.take n), by simp⟩
  | some k =>
    obtain ⟨blanks, -⟩ := aloneUntil?_eq_some line
    obtain ⟨kept, parts, begins⟩ := take_of_blank fresh blanks
    refine ⟨String.ofList kept, ?_, fun _ => by rwa [String.toList_ofList]⟩
    simp only [parts, String.ofList_append]
    rfl

/-- A tag that is read lies in what there is to read. -/
theorem length_tag (h : Text.occurrence? c.sigil.2.2 (c.rest.drop c.contentStart) = some n) :
    c.delimiters.val.opening.toList.length < c.contentStart + n + c.sigil.2.2.length ∧
      c.contentStart + n + c.sigil.2.2.length ≤ c.rest.length := by
  obtain ⟨front, last, close, -⟩ := c.close_sigil
  have fits := Text.occurrence?_length h
  have start : c.delimiters.val.opening.toList.length ≤ c.contentStart := Nat.le_add_right _ _
  rw [close, List.length_append, List.length_drop, List.length_singleton] at fits
  rw [close, List.length_append, List.length_singleton]
  omega

/-- A step passes the text in front of a tag, the tag, and the rest of its line if it stands
alone. -/
theorem skip_step (h : c.step = .ok (segment, next)) : ∃ n k,
    Text.occurrence? c.delimiters.val.opening.toList c.rest = some n ∧ n < k ∧ k ≤ c.rest.length ∧
    segment.lead.toList = c.rest.take n ∧ segment.tag.start = (c.skip n).place ∧
    next = { c.skip k with delimiters := segment.tag.directive.delimitersAfter c.delimiters } := by
  obtain ⟨n, directive, after, found, read, made⟩ := step_ok_iff.1 h
  obtain ⟨m, inside, -, rfl⟩ := readTag_ok_iff.1 read
  obtain ⟨width, hw⟩ :
    ∃ width, (c.skip n).contentStart + m + (c.skip n).sigil.2.2.length = width := ⟨_, rfl⟩
  have fits := length_tag inside
  rw [hw] at fits made
  obtain ⟨k, hk, skipped⟩ : ∃ k ≤ ((c.skip n).skip width).rest.length, (c.through n directive
      ((c.skip n).skip width)).2 = { ((c.skip n).skip width).skip k with
        delimiters := directive.delimitersAfter c.delimiters } := by
    cases line : aloneUntil? (c.skip n) ((c.skip n).skip width) directive with
    | none => exact ⟨0, Nat.zero_le _, by simp only [through, line]; rfl⟩
    | some k =>
      exact ⟨k, (lineEnd?_spec (aloneUntil?_eq_some line).2).1, by simp only [through, line]; rfl⟩
  obtain ⟨rfl, rfl⟩ := Prod.mk.inj made
  have opening := c.delimiters.property.opening_length
  refine ⟨n, n + width + k, found, ?_, ?_, by simp, rfl, ?_⟩
  · simp only [delimiters_skip] at fits
    omega
  · simp only [rest_skip, List.length_drop] at fits hk
    omega
  · rw [← skip_skip, ← skip_skip]
    exact skipped

theorem stop_step (h : c.step = .ok (segment, next)) :
    segment.tag.stop = next.place ∧ segment.tag.delimiters = c.delimiters.val := by
  obtain ⟨n, directive, after, -, -, made⟩ := step_ok_iff.1 h
  obtain ⟨rfl, rfl⟩ := Prod.mk.inj made
  exact ⟨rfl, rfl⟩

theorem delimiters_step (h : c.step = .ok (segment, next)) :
    next.delimiters = segment.tag.directive.delimitersAfter c.delimiters := by
  obtain ⟨n, k, -, -, -, -, -, rfl⟩ := skip_step h
  rfl

theorem start_step (h : c.step = .ok (segment, next)) {kept : String}
    (parts : segment.lead = kept ++ segment.tag.indent) :
    segment.tag.start.offset =
      c.place.offset + Text.byteLength kept.toList +
        Text.byteLength segment.tag.indent.toList := by
  obtain ⟨n, k, -, -, -, lead, start, -⟩ := skip_step h
  rw [start, skip, Position.offset_advance, ← lead, parts, String.toList_append,
    Text.byteLength_append, Nat.add_assoc]

/-- A body ends behind the text that its closing tag leaves. -/
theorem bodyStop_step (h : c.step = .ok (segment, next)) {kept : String}
    (parts : segment.lead = kept ++ segment.tag.indent) :
    segment.tag.bodyStop = c.place.offset + Text.byteLength kept.toList := by
  rw [Tag.bodyStop, start_step h parts, Nat.add_sub_cancel]

/-! Text behind the line -/

/-- The same cursor with more text behind what is to be read. -/
def extend (tail : List Char) (c : Cursor) : Cursor := { c with rest := c.rest ++ tail }

@[simp] theorem rest_extend : (c.extend tail).rest = c.rest ++ tail := rfl

@[simp] theorem delimiters_extend : (c.extend tail).delimiters = c.delimiters := rfl

/-- What is still to be read ends with its line. -/
def EndsLine (c : Cursor) : Prop := c.rest.foldl widen c.margin = []

theorem extend_inj {d : Cursor} : c.extend tail = d.extend tail ↔ c = d := by
  constructor
  · intro h
    cases c
    cases d
    simpa [extend] using h
  · rintro rfl
    rfl

theorem skip_extend (h : n ≤ c.rest.length) :
    (c.extend tail).skip n = (c.skip n).extend tail := by
  simp only [skip, extend, List.drop_append_of_le_length h, List.take_append_of_le_length h]

theorem endsLine_skip (h : c.EndsLine) (n : Nat) : (c.skip n).EndsLine := by
  unfold EndsLine skip
  rw [← List.foldl_append, List.take_append_drop]
  exact h

/-- The kind of a tag shows as soon as something stands behind the mark that opens it. -/
theorem content_extend (tail : List Char)
    (h : c.delimiters.val.opening.toList.length < c.rest.length) :
    (c.extend tail).sigil = c.sigil ∧ (c.extend tail).contentStart = c.contentStart ∧
      (c.extend tail).rest.drop c.contentStart = c.rest.drop c.contentStart ++ tail := by
  have same : (c.extend tail).sigil = c.sigil := by
    unfold sigil extend
    rw [List.drop_append_of_le_length (Nat.le_of_lt h)]
    cases rest : c.rest.drop c.delimiters.val.opening.toList.length with
    | nil => exact absurd (List.drop_eq_nil_iff.1 rest) (Nat.not_le.2 h)
    | cons a rest => rfl
  have width : c.sigil.2.1 ≤ 1 := by
    unfold sigil Sigil.ofRest
    split
    · exact Nat.zero_le 1
    · split
      · exact Nat.le_refl 1
      · split <;> simp
  refine ⟨same, ?_, List.drop_append_of_le_length ?_⟩
  · unfold contentStart
    rw [same]
    rfl
  · unfold contentStart
    omega

/-- A tag that ends in the first part of a text is read there. -/
theorem readTag_extend {directive : Directive} {after : Cursor} :
    (c.extend tail).readTag = .ok (directive, after.extend tail) ↔
      c.readTag = .ok (directive, after) := by
  rw [readTag_ok_iff, readTag_ok_iff]
  constructor
  · rintro ⟨n, found, content, skipped⟩
    have fits := length_tag found
    -- the tail is still unread behind the tag, so the tag lies in front of it
    have lengths := congrArg (·.rest.length) skipped
    simp only [rest_extend, delimiters_extend, rest_skip, List.length_drop, List.length_append]
      at lengths fits
    obtain ⟨same, start, split⟩ := content_extend tail (show _ < c.rest.length by omega)
    rw [same, start] at found content skipped fits lengths
    rw [split] at found content
    have short : n + c.sigil.2.2.length ≤ (c.rest.drop c.contentStart).length := by
      rw [List.length_drop]
      omega
    rw [List.take_append_of_le_length (by omega)] at content
    rw [skip_extend (by omega), extend_inj] at skipped
    exact ⟨n, Text.occurrence?_of_append found short, content, skipped⟩
  · rintro ⟨n, found, content, rfl⟩
    have fits := length_tag found
    obtain ⟨same, start, split⟩ := content_extend tail (show _ < c.rest.length by omega)
    rw [same, start, split]
    have short := Text.occurrence?_length found
    refine ⟨n, Text.occurrence?_append found tail, ?_, (skip_extend fits.2).symm⟩
    rwa [List.take_append_of_le_length (by omega)]

/-- A tag that stands behind `n` characters leaves the same when more lines follow. -/
theorem through_extend {directive : Directive} {after : Cursor} (line : c.EndsLine)
    (h : n ≤ c.rest.length) (read : (c.skip n).readTag = .ok (directive, after)) :
    (c.extend tail).through n directive (after.extend tail) =
      (c.through n directive after).map id (extend tail) := by
  obtain ⟨last, before, margin, -⟩ := margin_readTag read
  obtain ⟨m, -, -, skipped⟩ := readTag_ok_iff.1 read
  -- a tag does not end in a newline, so the end of the line is still to come
  have ends : after.rest.getLast? = some '\n' := by
    have ends : after.EndsLine := by
      rw [skipped]
      exact endsLine_skip (endsLine_skip line n) _
    rcases foldl_widen_eq_nil.1 ends with ⟨-, none⟩ | newline
    · simp [margin] at none
    · exact newline
  have alone : aloneUntil? ((c.extend tail).skip n) (after.extend tail) directive =
      aloneUntil? (c.skip n) after directive := by
    unfold aloneUntil?
    rw [skip_extend h, rest_extend, lineEnd?_append ends]
    rfl
  have within : (aloneUntil? (c.skip n) after directive).getD 0 ≤ after.rest.length := by
    cases found : aloneUntil? (c.skip n) after directive with
    | none => exact Nat.zero_le _
    | some k => exact (lineEnd?_spec (aloneUntil?_eq_some found).2).1
  unfold through
  dsimp only
  rw [alone, skip_extend within, skip_extend h, rest_extend, List.take_append_of_le_length h]
  rfl

/-- A step that ends in front of a line end is the same when more lines follow. -/
theorem step_extend (line : c.EndsLine) :
    (c.extend tail).step = .ok (segment, next.extend tail) ↔ c.step = .ok (segment, next) := by
  rw [step_ok_iff, step_ok_iff]
  constructor
  · rintro ⟨n, directive, after, found, read, made⟩
    obtain ⟨m, inside, -, skipped⟩ := readTag_ok_iff.1 read
    obtain ⟨width, hw⟩ : ∃ width, ((c.extend tail).skip n).contentStart + m +
      ((c.extend tail).skip n).sigil.2.2.length = width := ⟨_, rfl⟩
    have fits := length_tag inside
    -- the tail is unread behind the step, which bounds all that the step has passed
    have lengths := congrArg (·.2.rest.length) made
    rw [hw] at fits skipped
    simp only [through, skipped, rest_extend, rest_skip, delimiters_extend, delimiters_skip,
      List.length_drop, List.length_append] at lengths fits
    have opening := Text.occurrence?_length found
    have short : n ≤ c.rest.length := by omega
    have passed : after = ((c.skip n).skip width).extend tail := by
      rw [skipped, skip_extend short, skip_extend]
      rw [rest_skip, List.length_drop]
      omega
    subst passed
    rw [skip_extend short, readTag_extend] at read
    rw [through_extend line short read] at made
    refine ⟨n, directive, _, Text.occurrence?_of_append found ?_, read, ?_⟩
    · omega
    · obtain ⟨h, h'⟩ := Prod.mk.inj made
      rw [h, extend_inj.1 h']
      rfl
  · rintro ⟨n, directive, after, found, read, made⟩
    have short : n ≤ c.rest.length := by
      have := Text.occurrence?_length found
      omega
    refine ⟨n, directive, after.extend tail, Text.occurrence?_append found tail, ?_, ?_⟩
    · rwa [skip_extend short, readTag_extend]
    · rw [through_extend line short read, ← made]
      rfl

/-- No tag begins in front of a line end and goes on behind it. -/
theorem not_opened_extend (line : c.EndsLine)
    (none : Text.occurrence? c.delimiters.val.opening.toList c.rest = none) :
    ∀ k < c.rest.length, ¬ c.delimiters.val.opening.toList <+: (c.extend tail).rest.drop k := by
  intro k hk here
  rw [rest_extend, List.drop_append_of_le_length (Nat.le_of_lt hk)] at here
  rcases Nat.le_total c.delimiters.val.opening.toList.length (c.rest.drop k).length with
    short | long
  · exact Text.occurrence?_eq_none none k
      (List.prefix_of_prefix_length_le here (List.prefix_append _ _) short)
  · have inside := List.prefix_of_prefix_length_le (List.prefix_append _ _) here long
    -- a mark across the line end would hold a newline
    rcases foldl_widen_eq_nil.1 line with ⟨empty, -⟩ | newline
    · simp [empty] at hk
    · have last : (c.rest.drop k).getLast? = some '\n' := by
        rw [List.getLast?_drop, if_neg (Nat.not_le.2 hk), newline]
      have mem := inside.subset (List.mem_of_getLast? last)
      cases Delimiters.not_isWhiteSpace_of_usable c.delimiters.property.1 mem

/-! Text in front of the next tag -/

theorem through_skip (c : Cursor) (n m : Nat) (directive : Directive) (after : Cursor) :
    c.through (n + m) directive after =
      ((c.skip n).through m directive after).map
        (Segment.behind (String.ofList (c.rest.take n))) id := by
  unfold through
  dsimp only
  rw [← skip_skip, List.take_add, String.ofList_append]
  rfl

/-- Text in which no tag opens can be passed before a step. -/
theorem step_skip (h : ∀ k < n, ¬ c.delimiters.val.opening.toList <+: c.rest.drop k) :
    c.step =
      ((c.skip n).step.map (Prod.map (Segment.behind (String.ofList (c.rest.take n))) id)).mapError
        (Ending.behind (String.ofList (c.rest.take n))) := by
  rw [step_eq, step_eq, Text.occurrence?_drop h, delimiters_skip, rest_skip]
  cases Text.occurrence? c.delimiters.val.opening.toList (c.rest.drop n) with
  | none =>
    have last : (c.skip n).skip (c.rest.drop n).length = c.skip c.rest.length := by
      rw [skip_skip, skip_of_length_le]
      rw [List.length_drop]
      omega
    have whole : String.ofList c.rest =
        String.ofList (c.rest.take n) ++ String.ofList (c.rest.drop n) := by
      rw [← String.ofList_append, List.take_append_drop]
    rw [last, whole]
    rfl
  | some m =>
    simp only [Option.map_some, ← skip_skip, through_skip]
    cases ((c.skip n).skip m).readTag <;> rfl

end Cursor

end Mustache
