import Mathlib.Data.List.Induction
import Mustache.Proofs.Reading.Descent

/-! What can be read: the sources whose tags nest. The grammar of nesting speaks of the names that
are opened and closed in the flat reading, and of nothing else; where a source does not obey it, the
error is that of the first tag that breaks it. -/
namespace Mustache

/-- What a tag means for the nesting. -/
inductive Bracket
  | opening (name : String)
  | closing (name : String)
  deriving DecidableEq

/-- Words in which every name that is opened is closed, and nothing is closed before what was opened
after it. -/
inductive Balanced : List Bracket → Prop
  | nil : Balanced []
  | nest {name : String} {inner rest : List Bracket} (inside : Balanced inner)
    (behind : Balanced rest) :
    Balanced (.opening name :: inner ++ .closing name :: rest)

/-- Words that leave some names open, innermost first: whatever else they open they close again. -/
inductive Leaves : List Bracket → List String → Prop
  | nothing {word : List Bracket} (balanced : Balanced word) : Leaves word []
  | opened {word inner : List Bracket} {name : String} {names : List String}
    (outer : Leaves word names) (inside : Balanced inner) :
    Leaves (word ++ .opening name :: inner) (name :: names)

theorem Balanced.append {first second : List Bracket} (h : Balanced first)
    (h' : Balanced second) : Balanced (first ++ second) := by
  induction h with
  | nil => exact h'
  | @nest name inner rest inside _ _ ih =>
    rw [List.append_assoc, List.cons_append]
    exact .nest inside ih

namespace Leaves
variable {word : List Bracket} {names : List String} {name : String}

theorem balanced (h : Leaves word []) : Balanced word := by
  cases h with
  | nothing balanced => exact balanced

theorem append (h : Leaves word names) {more : List Bracket} (balanced : Balanced more) :
    Leaves (word ++ more) names := by
  cases h with
  | nothing closed => exact .nothing (closed.append balanced)
  | opened outer inside =>
    rw [List.append_assoc, List.cons_append]
    exact .opened outer (inside.append balanced)

theorem opening (h : Leaves word names) (name : String) :
    Leaves (word ++ [.opening name]) (name :: names) := .opened h .nil

theorem closing (h : Leaves word (name :: names)) : Leaves (word ++ [.closing name]) names := by
  cases h with
  | @opened before inner _ _ outer inside =>
    have nested : Balanced (.opening name :: inner ++ [.closing name]) := .nest inside .nil
    rw [List.append_assoc]
    exact outer.append nested

end Leaves

/-- The names left open behind a word, from those open in front of it. -/
def openBehind : List String → List Bracket → Option (List String)
  | names, [] => some names
  | names, .opening name :: rest => openBehind (name :: names) rest
  | [], .closing _ :: _ => none
  | innermost :: names, .closing name :: rest =>
    if innermost = name then openBehind names rest else none

theorem openBehind_balanced {word : List Bracket} (h : Balanced word) (names : List String)
    (rest : List Bracket) : openBehind names (word ++ rest) = openBehind names rest := by
  induction h generalizing names rest with
  | nil => rfl
  | nest _ _ inside behind =>
    rw [List.append_assoc, List.cons_append, List.cons_append, openBehind, inside, openBehind,
      if_pos rfl, behind]

theorem openBehind_of_leaves {word : List Bracket} {names : List String} (h : Leaves word names)
    (rest : List Bracket) : openBehind [] (word ++ rest) = openBehind names rest := by
  induction h generalizing rest with
  | nothing balanced => exact openBehind_balanced balanced [] rest
  | opened _ inside ih =>
    rw [List.append_assoc, ih, List.cons_append, openBehind, openBehind_balanced inside]

/-! The nesting of a flat reading -/

/-- What a directive means for the nesting. -/
def Directive.bracket? : Directive → Option Bracket
  | opening _ name => some (.opening name)
  | closing name => some (.closing name)
  | interpolation _ _ | inclusion _ | comment | delimiters _ => none

/-- The word of opening and closing tags. -/
def brackets (segments : List Segment) : List Bracket :=
  segments.filterMap fun segment => segment.tag.directive.bracket?

/-- A closing tag that does not close the innermost of the names left open in front of it, and the
error that it is. -/
inductive Tag.Offends (tag : Tag) : List String → ParseError → Prop
  | stray {name : String} (kind : tag.directive = .closing name) :
    Offends tag [] (.at tag.start (.strayClosing name))
  | mismatched {name innermost : String} {names : List String}
    (kind : tag.directive = .closing name) (other : innermost ≠ name) :
    Offends tag (innermost :: names) (.at tag.start (.mismatchedClosing innermost name))

namespace Scan

/-- The end of the source is reached, and the tags nest. -/
structure Nests (s : Scan) : Prop where
  finished : ∃ text place last, s.ending = .finished text place last
  balanced : Balanced (brackets s.segments)

/-- The first event that breaks the nesting, and the error that it is: a closing tag, a fault where
the next tag should be, or the end of the source. In front of it names are left open, but there is
nothing wrong. -/
inductive Offends (s : Scan) : ParseError → Prop
  | closing {before after : List Segment} {segment : Segment} {names : List String}
    {error : ParseError} (split : s.segments = before ++ segment :: after)
    (left : Leaves (brackets before) names) (offends : segment.tag.Offends names error) :
    Offends s error
  | malformed {names : List String} {error : ParseError}
    (left : Leaves (brackets s.segments) names) (failed : s.ending = .failed error) :
    Offends s error
  | unclosed {name text : String} {names : List String} {place : Position} {last : Delimiters}
    (left : Leaves (brackets s.segments) (name :: names))
    (finished : s.ending = .finished text place last) :
    Offends s (.at place (.endBefore (last.opening ++ "/" ++ name ++ last.closing)))

end Scan

/-- Either every tag finds its place, or one of them is the first that does not. -/
theorem leaves_or_offends (segments : List Segment) :
    (∃ names, Leaves (brackets segments) names) ∨
      ∃ before segment after names error, segments = before ++ segment :: after ∧
        Leaves (brackets before) names ∧ segment.tag.Offends names error := by
  induction segments using List.reverseRecOn with
  | nil => exact .inl ⟨[], .nothing .nil⟩
  | append_singleton segments segment ih =>
    rcases ih with ⟨names, left⟩ | ⟨before, first, after, names, error, rfl, left, offends⟩
    · have whole : brackets (segments ++ [segment]) =
          brackets segments ++ segment.tag.directive.bracket?.toList := by
        unfold brackets
        rw [List.filterMap_append, List.filterMap_cons]
        cases segment.tag.directive.bracket? <;> rfl
      rw [whole]
      cases kind : segment.tag.directive with
      | interpolation | inclusion | comment | delimiters =>
        exact .inl ⟨names, left.append .nil⟩
      | opening opener name => exact .inl ⟨name :: names, left.opening name⟩
      | closing name =>
        cases names with
        | nil => exact .inr ⟨segments, segment, [], _, _, rfl, left, .stray kind⟩
        | cons innermost names =>
          by_cases same : innermost = name
          · subst same
            exact .inl ⟨names, left.closing⟩
          · exact .inr ⟨segments, segment, [], _, _, rfl, left, .mismatched kind same⟩
    · exact .inr ⟨before, first, after ++ [segment], names, error, by simp, left, offends⟩

theorem Scan.nests_or_offends (s : Scan) : s.Nests ∨ ∃ error, s.Offends error := by
  rcases leaves_or_offends s.segments with ⟨names, left⟩ |
    ⟨before, segment, after, names, error, split, left, offends⟩
  · cases ending : s.ending with
    | failed error => exact .inr ⟨error, .malformed left ending⟩
    | finished text place last =>
      cases names with
      | nil => exact .inl ⟨⟨text, place, last, ending⟩, left.balanced⟩
      | cons name names => exact .inr ⟨_, .unclosed left ending⟩
  · exact .inr ⟨error, .closing split left offends⟩

namespace Assembly
variable {a : Assembly} {names : List String}

/-- The names of the open tags, innermost first. -/
def openNames (a : Assembly) : List String := a.frames.map Frame.name

/-- A tree grows along the tags exactly if names are left open behind them, and has them open. -/
theorem openNames_foldlM (source : String) (a : Assembly) (segments : List Segment) :
    ((segments.foldlM (add source) a).toOption.map openNames) =
      openBehind a.openNames (brackets segments) := by
  induction segments generalizing a with
  | nil => rfl
  | cons segment rest ih =>
    rw [List.foldlM_cons]
    unfold add addTag brackets
    cases kind : segment.tag.directive with
    | interpolation | inclusion | comment | delimiters | opening =>
      simp only [List.filterMap_cons, kind, Directive.bracket?]
      exact ih _
    | closing name =>
      simp only [List.filterMap_cons, kind, Directive.bracket?]
      cases open_tags : a.frames with
      | nil =>
        simp only [openNames, open_tags]
        rfl
      | cons f outer =>
        simp only [openNames, open_tags, List.map_cons, openBehind]
        split
        · exact ih _
        · rfl

theorem foldlM_of_leaves (source : String) {segments : List Segment}
    (h : Leaves (brackets segments) names) :
    ∃ b, segments.foldlM (add source) empty = .ok b ∧ b.openNames = names := by
  have run := openNames_foldlM source empty segments
  rw [← List.append_nil (brackets segments)] at run
  rw [show empty.openNames = [] from rfl, openBehind_of_leaves h []] at run
  cases fold : segments.foldlM (add source) empty with
  | error error =>
    rw [fold] at run
    cases run
  | ok b =>
    rw [fold] at run
    exact ⟨b, rfl, Option.some.inj run⟩

theorem add_of_offends (source : String) {segment : Segment} {error : ParseError}
    (h : segment.tag.Offends a.openNames error) : a.add source segment = .error error := by
  obtain ⟨frames, nodes⟩ := a
  unfold add addTag
  cases frames with
  | nil =>
    cases h with
    | stray kind => rw [kind]
  | cons f outer =>
    cases h with
    | mismatched kind other =>
      rw [kind]
      exact if_neg other

end Assembly

/-- The tree is completed behind the last tag. -/
theorem Scan.assemble_of_fold {source : String} {s : Scan} {b : Assembly}
    (fold : s.segments.foldlM (Assembly.add source) .empty = .ok b) :
    s.assemble source = b.finish s.ending := by
  unfold assemble
  rw [fold]
  rfl

theorem parseNodes_of_nests {source : String} {d : ValidDelimiters} (h : (scan source d).Nests) :
    ∃ nodes, parseNodes source d = .ok nodes := by
  obtain ⟨b, fold, none_open⟩ := Assembly.foldlM_of_leaves source (.nothing h.balanced)
  obtain ⟨text, place, last, ending⟩ := h.finished
  have closed : b.frames = [] := List.map_eq_nil_iff.1 none_open
  refine ⟨(Node.pushText text b.nodes).reverse, ?_⟩
  rw [parseNodes, Scan.assemble_of_fold fold, ending, Assembly.finish, closed]

theorem parseNodes_of_offends {source : String} {d : ValidDelimiters} {error : ParseError}
    (h : (scan source d).Offends error) : parseNodes source d = .error error := by
  unfold parseNodes
  cases h with
  | closing split left offends =>
    obtain ⟨b, fold, same⟩ := Assembly.foldlM_of_leaves source left
    subst same
    have added : b.add source _ = .error error := Assembly.add_of_offends source offends
    unfold Scan.assemble
    rw [split, List.foldlM_append, fold]
    change ((List.foldlM _ b (_ :: _)) >>= _) = _
    rw [List.foldlM_cons, added]
    rfl
  | malformed left failed =>
    obtain ⟨b, fold, -⟩ := Assembly.foldlM_of_leaves source left
    rw [Scan.assemble_of_fold fold, failed, Assembly.finish]
  | unclosed left finished =>
    obtain ⟨b, fold, same⟩ := Assembly.foldlM_of_leaves source left
    obtain ⟨f, outer, frames, rfl, -⟩ := List.map_eq_cons_iff.1 same
    rw [Scan.assemble_of_fold fold, finished, Assembly.finish, frames]

/-- A source can be read exactly if its end is reached and its tags nest. If not, the error is that
of the first event that breaks the nesting. -/
theorem parseByDescent_iff_nests (source : String) (d : ValidDelimiters) :
    ((∃ nodes, parseByDescent source d = .ok nodes) ↔ (scan source d).Nests) ∧
      (∀ error, parseByDescent source d = .error error ↔ (scan source d).Offends error) ∧
      Template.parseWith d.val source =
        (parseByDescent source d).map fun nodes => ⟨none, source, nodes⟩ := by
  rw [parseByDescent_eq]
  refine ⟨⟨fun ok => ?_, parseNodes_of_nests⟩, fun error => ⟨fun failed => ?_,
    parseNodes_of_offends⟩, ?_⟩
  · obtain ⟨nodes, ok⟩ := ok
    rcases (scan source d).nests_or_offends with nests | ⟨error, offends⟩
    · exact nests
    · rw [parseNodes_of_offends offends] at ok
      cases ok
  · rcases (scan source d).nests_or_offends with nests | ⟨error', offends⟩
    · obtain ⟨nodes, ok⟩ := parseNodes_of_nests nests
      rw [ok] at failed
      cases failed
    · rw [parseNodes_of_offends offends] at failed
      exact Except.error.inj failed ▸ offends
  · unfold Template.parseWith
    rw [dif_pos d.property]

end Mustache
