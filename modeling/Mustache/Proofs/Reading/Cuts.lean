import Mustache.Proofs.Reading.Forward

/-! A reader that takes indents back byte by byte. It counts the bytes that stand on the line in
front of a tag and cuts as many off the newest text, and a cut that is not between two characters
stops it for good. It is never stopped, since that text ends in what stands in front of the tag. -/
namespace Mustache

namespace Node

/-- Takes bytes from the end of the newest text, and the text itself if nothing is left. A character
cannot be cut in two. -/
def cutBytes? (bytes : Nat) (nodes : List Node) : Option (List Node) :=
  if bytes = 0 then some nodes
  else match nodes with
    | .text last :: older =>
      (Text.takeBytes? (Text.byteLength last.toList - bytes) last.toList).map fun kept =>
        if kept.isEmpty then older else .text (String.ofList kept) :: older
    | _ => some nodes

theorem cutBytes?_text {indent : String} (some : indent ≠ "") (kept : String) (older : List Node) :
    cutBytes? (Text.byteLength indent.toList) (.text (kept ++ indent) :: older) =
      .some (if kept = "" then older else .text kept :: older) := by
  have bytes : Text.byteLength indent.toList ≠ 0 := by
    have chars := Text.length_le_byteLength indent.toList
    have full : indent.toList.length ≠ 0 := by simpa using some
    omega
  unfold cutBytes?
  rw [if_neg bytes]
  simp only [String.toList_append, Text.byteLength_append, Nat.add_sub_cancel,
    Text.takeBytes?_append, Option.map_some, List.isEmpty_iff, String.toList_eq_nil_iff,
    String.ofList_toList]

/-- A text that does not end in what is cut off, but in the middle of a character. -/
example : cutBytes? 2 [.text "né "] = none := by decide +kernel

/-- Text that ends in an indent is the end of the newest text once it is in place. -/
theorem exists_pushText {indent : String} (some : indent ≠ "") (kept : String)
    (nodes : List Node) :
    ∃ last older, pushText (kept ++ indent) nodes = .text (last ++ indent) :: older := by
  rcases text_or_pushText nodes with ⟨last, older, rfl⟩ | new
  · exact ⟨last ++ kept, older, by rw [pushText_text, String.append_assoc]⟩
  · exact ⟨kept, nodes, new _ fun empty => some (String.append_eq_empty_iff.1 empty).2⟩

end Node

namespace Reader

/-- What is found when a tag is alone on its line: the nodes of its level, newest first, with the
text in front of the tag in place, and what stands in front of it on the line. -/
structure Lone where
  nodes : List Node
  front : String

/-- If something stands in front of the tag, the newest node is a text that ends in it, and a cut of
as many bytes takes it away and nothing else. -/
def Lone.Exact (l : Lone) : Prop :=
  l.front ≠ "" → ∃ kept older, l.nodes = .text (kept ++ l.front) :: older ∧
    Node.cutBytes? (Text.byteLength l.front.toList) l.nodes =
      some (if kept = "" then older else .text kept :: older)

section Source
variable (input : List Char)

/-- Takes the rest of the line of a tag that is alone on it, cuts off what stands in front of the
tag, and acts on the tag. -/
def settleCutting (opened : Option String) (nodes : List Node) (lineStart tagStart : Nat)
    (sigil : Sigil) (content : String) (m : Reader) :
    List Lone × Option (EStateM.Result ParseError Reader Turn) :=
  match if sigil.canStandAlone then m.lineStop? input lineStart tagStart else none with
  | none => ([], some (act input opened nodes tagStart tagStart "" sigil content m))
  | some stop =>
    let front := String.ofList ((Text.slice? lineStart tagStart input).getD [])
    ([⟨nodes, front⟩], (Node.cutBytes? (Text.byteLength front.toList) nodes).map fun nodes =>
      act input opened nodes tagStart lineStart front sigil content (m.advanceTo input stop))

/-- One iteration, with the tag that it finds alone on its line. Where no tag is left, there is
nothing to cut. -/
def turnCutting (opened : Option String) (nodes : List Node) (m : Reader) :
    List Lone × Option (EStateM.Result ParseError Reader Turn) :=
  let rest := m.rest input
  match Text.occurrence? m.delimiters.opening.toList rest with
  | none => ([], some (turn input opened nodes m))
  | some n =>
    let lead := rest.take n
    let m := m.advanceBy input (Text.byteLength lead)
    match readTag input m with
    | .error error m' => ([], some (.error error m'))
    | .ok (sigil, content) m' =>
      settleCutting input opened (Node.pushText (String.ofList lead) nodes) m.lineStart m.pos sigil
        content m'

end Source

/-- A reader, and the tags that it has found alone on their lines, newest first. No step looks at
them. -/
abbrev Cutting := Reader × List Lone

/-- One call: an iteration on the level of a tag, and the calls of the reader to itself. Where a cut
fails nothing is returned at all. -/
def roundCutting (source : String) : Program (Option String × List Node) Cutting
    (Option (EStateM.Result ParseError Cutting (List Node × Nat))) :=
  fun again (opened, nodes) (m, lones) =>
    let (found, turned) := turnCutting source.toList opened nodes m
    let lones := found ++ lones
    match turned with
    | none => none
    | some (.error error m) => some (.error error (m, lones))
    | some (.ok (.done nodes bodyStop) m) => some (.ok (nodes, bodyStop) (m, lones))
    | some (.ok (.goOn nodes) m) => again (opened, nodes) (m, lones)
    | some (.ok (.inside frame) m) =>
      match again (some frame.name, []) (m, lones) with
      | some (.ok (children, bodyStop) s) =>
        again (opened, frame.close source bodyStop children :: frame.before) s
      | unfinished => unfinished

variable {source : String} {d : ValidDelimiters} {before : List Char} {c : Cursor}
  {opened : Option String} {nodes : List Node} {lones : List Lone}

/-! One iteration -/

/-- What ends in front of a tag is cut off as it is taken back character by character. -/
theorem Lone.exact_pushText (kept front : String) (nodes : List Node) :
    Exact ⟨Node.pushText (kept ++ front) nodes, front⟩ ∧
      Node.cutBytes? (Text.byteLength front.toList) (Node.pushText (kept ++ front) nodes) =
        some (Node.trimIndent front (Node.pushText (kept ++ front) nodes)) := by
  by_cases empty : front = ""
  · refine ⟨fun some => absurd empty some, ?_⟩
    rw [empty]
    rfl
  · obtain ⟨last, older, ends⟩ := Node.exists_pushText empty kept nodes
    have cut := Node.cutBytes?_text empty last older
    rw [ends, Node.trimIndent_text empty]
    exact ⟨fun _ => ⟨last, older, rfl, cut⟩, cut⟩

/-- A tag is found alone on its line where only blanks stand in front of it. -/
theorem blank_of_alone {lineStart tagStart stop : Nat} {front : List Char} {m : Reader}
    {sigil : Sigil} (slice : Text.slice? lineStart tagStart source.toList = some front)
    (alone : (if sigil.canStandAlone then m.lineStop? source.toList lineStart tagStart
      else none) = some stop) : front.all Text.isBlank = true := by
  split at alone
  · unfold lineStop? at alone
    rw [slice] at alone
    dsimp only at alone
    split at alone
    · assumption
    · cases alone
  · cases alone

/-- An iteration does what it does when it takes indents back character by character. -/
theorem settleCutting_eq (h : (Cursor.ofSource source d).Passes before c) (fresh : c.Fresh)
    (n : Nat) (opened : Option String) (nodes : List Node) (sigil : Sigil) (content : String)
    (m : Reader) : ∃ found, settleCutting source.toList opened
        (Node.pushText (String.ofList (c.rest.take n)) nodes) (ofCursor (c.skip n)).lineStart
        (c.skip n).place.offset sigil content m =
      (found, some (settle source.toList opened
        (Node.pushText (String.ofList (c.rest.take n)) nodes) (ofCursor (c.skip n)).lineStart
        (c.skip n).place.offset sigil content m)) ∧ ∀ l ∈ found, l.Exact := by
  obtain ⟨front, -⟩ := slice_line (h.skip n)
  unfold settleCutting settle
  cases alone : if sigil.canStandAlone then m.lineStop? source.toList
      (ofCursor (c.skip n)).lineStart (c.skip n).place.offset else none with
  | none => exact ⟨[], rfl, List.forall_mem_nil _⟩
  | some stop =>
    have blank := blank_of_alone front alone
    rw [List.all_reverse] at blank
    obtain ⟨kept, lead, -⟩ := Cursor.take_of_blank fresh blank
    obtain ⟨exact, cut⟩ := Lone.exact_pushText (String.ofList kept)
      (String.ofList (c.skip n).margin.reverse) nodes
    rw [← String.ofList_append, ← lead] at exact cut
    refine ⟨[⟨_, _⟩], ?_, List.forall_mem_singleton.2 exact⟩
    simp only [front, Option.getD_some, cut, Option.map_some]

theorem turnCutting_eq (h : (Cursor.ofSource source d).Passes before c) (fresh : c.Fresh)
    (opened : Option String) (nodes : List Node) :
    ∃ found, turnCutting source.toList opened nodes (ofCursor c) =
      (found, some (turn source.toList opened nodes (ofCursor c))) ∧ ∀ l ∈ found, l.Exact := by
  cases found : Text.occurrence? c.delimiters.val.opening.toList c.rest with
  | none =>
    refine ⟨[], ?_, List.forall_mem_nil _⟩
    simp only [turnCutting, delimiters_ofCursor, rest_eq h, found]
  | some n =>
    simp only [turnCutting, turn, delimiters_ofCursor, rest_eq h, found, advanceBy_eq h]
    cases readTag source.toList (ofCursor (c.skip n)) with
    | error error m => exact ⟨[], rfl, List.forall_mem_nil _⟩
    | ok held m => exact settleCutting_eq h fresh n opened nodes held.1 held.2 m

/-! The run -/

section Calls
variable {m m' : Reader} {found : List Lone}
  {r : Option (EStateM.Result ParseError Cutting (List Node × Nat))}

theorem returns_failed {error : ParseError}
    (turned : turnCutting source.toList opened nodes m = (found, some (.error error m'))) :
    Returns (roundCutting source) (opened, nodes) (m, lones)
      (some (.error error (m', found ++ lones))) := by
  refine .of_calls [] (List.forall_mem_nil _) fun f _ => ?_
  simp only [roundCutting, turned]

theorem returns_done {nodes' : List Node} {bodyStop : Nat}
    (turned : turnCutting source.toList opened nodes m =
      (found, some (.ok (.done nodes' bodyStop) m'))) :
    Returns (roundCutting source) (opened, nodes) (m, lones)
      (some (.ok (nodes', bodyStop) (m', found ++ lones))) := by
  refine .of_calls [] (List.forall_mem_nil _) fun f _ => ?_
  simp only [roundCutting, turned]

theorem returns_goOn {nodes' : List Node}
    (turned : turnCutting source.toList opened nodes m = (found, some (.ok (.goOn nodes') m')))
    (later : Returns (roundCutting source) (opened, nodes') (m', found ++ lones) r) :
    Returns (roundCutting source) (opened, nodes) (m, lones) r := by
  refine .of_calls [(_, _, r)] (List.forall_mem_singleton.2 later) fun f agrees => ?_
  simp only [roundCutting, turned]
  exact agrees _ List.mem_cons_self

section Inside
variable {frame : Frame}
  (turned : turnCutting source.toList opened nodes m = (found, some (.ok (.inside frame) m')))
include turned

theorem returns_insideFailed {error : ParseError} {s : Cutting}
    (inner : Returns (roundCutting source) (some frame.name, []) (m', found ++ lones)
      (some (.error error s))) :
    Returns (roundCutting source) (opened, nodes) (m, lones) (some (.error error s)) := by
  refine .of_calls [(_, _, _)] (List.forall_mem_singleton.2 inner) fun f agrees => ?_
  have nested : f _ _ = _ := agrees _ List.mem_cons_self
  simp only [roundCutting, turned, nested]

theorem returns_inside {children : List Node} {bodyStop : Nat} {s : Cutting}
    (inner : Returns (roundCutting source) (some frame.name, []) (m', found ++ lones)
      (some (.ok (children, bodyStop) s)))
    (later : Returns (roundCutting source)
      (opened, frame.close source bodyStop children :: frame.before) s r) :
    Returns (roundCutting source) (opened, nodes) (m, lones) r := by
  refine .of_calls [(_, _, _), (_, _, r)]
    (List.forall_mem_cons.2 ⟨inner, List.forall_mem_singleton.2 later⟩) fun f agrees => ?_
  have nested : f _ _ = _ := agrees _ List.mem_cons_self
  simp only [roundCutting, turned, nested]
  exact agrees _ (List.mem_cons_of_mem _ List.mem_cons_self)

end Inside

end Calls

/-- A call that begins at a cursor returns, with the level that is read there, and all tags that
have been found alone on their lines have been exactly cut from. Behind a level that a tag closes
the reader is where the cursor behind it is. -/
def CutsAlong (source : String) (c : Cursor) (opened : Option String) (nodes : List Node)
    (lones : List Lone) : Prop :=
  ∃ c' lones', Returns (roundCutting source) (opened, nodes) (ofCursor c, lones)
      (some (ended ((c.level source opened nodes).map Prod.fst) (ofCursor c', lones'))) ∧
    (∀ l ∈ lones', l.Exact) ∧
    ∀ level after, opened ≠ none → c.level source opened nodes = .ok (level, after) →
      after = c' ∧ c'.Fresh ∧ ∃ text, c.Passes text c'

/-- By induction on what is left to read, as without cuts: a level inside of a tag begins behind the
tag, and what is behind that level comes after it. -/
theorem cutsAlong (h : (Cursor.ofSource source d).Passes before c) (fresh : c.Fresh)
    (opened : Option String) (nodes : List Node) (exact : ∀ l ∈ lones, l.Exact) :
    CutsAlong source c opened nodes lones := by
  induction c using Cursor.induction_shorter generalizing before opened nodes lones with
  | step c ih =>
  obtain ⟨found, cut, here⟩ := turnCutting_eq h fresh opened nodes
  have exact : ∀ l ∈ found ++ lones, l.Exact := List.forall_mem_append.2 ⟨here, exact⟩
  cases read : c.step with
  | error ending =>
    cases ending with
    | finished text place last =>
      have level := Cursor.level_finished source opened nodes read
      rw [turn_finished h opened nodes read] at cut
      unfold CutsAlong
      rw [level]
      cases opened with
      | none => exact ⟨_, _, returns_done cut, exact, fun _ _ some => absurd rfl some⟩
      | some name => exact ⟨_, _, returns_failed cut, exact, fun _ _ _ ok => nomatch ok⟩
    | failed error =>
      obtain ⟨k, -, turned⟩ := turn_failed h opened nodes read
      rw [turned] at cut
      unfold CutsAlong
      rw [Cursor.level_failed source opened nodes read]
      exact ⟨_, _, returns_failed cut, exact, fun _ _ _ ok => nomatch ok⟩
  | ok p =>
    obtain ⟨segment, next⟩ := p
    have shorter := Cursor.length_rest_of_step read
    have fresh' := Cursor.fresh_step read
    obtain ⟨more, -, passed⟩ := Cursor.passes_step read
    have level := Cursor.level_read source opened nodes read
    rw [turn_read h opened nodes read] at cut
    unfold CutsAlong
    rw [level]
    cases tag : Turn.ofTag opened (Node.trimIndent segment.tag.indent
        (Node.pushText segment.lead nodes)) segment.tag with
    | error error =>
      rw [tag] at cut
      exact ⟨_, _, returns_failed cut, exact, fun _ _ _ ok => nomatch ok⟩
    | ok t =>
      rw [tag] at cut
      cases t with
      | done nodes' bodyStop =>
        refine ⟨_, _, returns_done cut, exact, fun l after _ ok => ?_⟩
        obtain ⟨-, rfl⟩ := Prod.mk.inj (Except.ok.inj ok)
        exact ⟨rfl, fresh', _, passed⟩
      | goOn nodes' =>
        obtain ⟨c', lones', ran, exact, further⟩ :=
          ih next shorter (h.trans passed) fresh' opened nodes' exact
        refine ⟨c', lones', returns_goOn cut ran, exact, fun l after some ok => ?_⟩
        obtain ⟨same, fresh, text, passed'⟩ := further l after some ok
        exact ⟨same, fresh, _, passed.trans passed'⟩
      | inside frame =>
        obtain ⟨c', lones', inner, exact, within⟩ :=
          ih next shorter (h.trans passed) fresh' (.some frame.name) [] exact
        dsimp only
        cases nested : next.level source (.some frame.name) [] with
        | error error =>
          rw [nested] at inner
          exact ⟨c', lones', returns_insideFailed cut inner, exact, fun _ _ _ ok => nomatch ok⟩
        | ok l =>
          obtain ⟨⟨children, bodyStop⟩, after⟩ := l
          obtain ⟨rfl, fresh'', text, passed'⟩ := within _ _ (Option.some_ne_none _) nested
          rw [nested] at inner
          have shorter' : after.rest.length < c.rest.length := by
            have lengths := congrArg List.length passed'.rest
            rw [List.length_append] at lengths
            omega
          have behind := passed.trans passed'
          obtain ⟨c'', lones'', ran, exact, further⟩ :=
            ih after shorter' (h.trans behind) fresh'' opened _ exact
          refine ⟨c'', lones'', returns_inside cut inner ran, exact, fun l after some ok => ?_⟩
          obtain ⟨same, fresh, text, passed''⟩ := further l after some ok
          exact ⟨same, fresh, _, behind.trans passed''⟩

/-- Reading a source from delimiters that parsing accepts is never stopped by a cut, and comes to
what parsing comes to. Wherever in the run a tag is found alone on its line behind some indent, the
newest node of its level is a text that ends in just this indent, and the cut takes the indent away
and nothing else. -/
theorem roundCutting_returns (source : String) {d : Delimiters} (accepted : d.Valid) :
    ∃ result m lones,
      Returns (roundCutting source) (none, []) (start d, [])
        (some (ended result (m, lones))) ∧
      result.map Prod.fst = (Template.parseWith d source).map Template.nodes ∧
      ∀ l ∈ lones, l.Exact := by
  obtain ⟨c', lones, returned, exact, -⟩ :=
    cutsAlong (.refl (.ofSource source ⟨d, accepted⟩)) (Cursor.fresh_ofSource source _) none []
      (List.forall_mem_nil _)
  exact ⟨_, _, lones, returned, map_level source accepted, exact⟩

/-- Tags alone on their lines behind blanks of both kinds: behind text that is not of single bytes,
and at the start of a level. -/
def rota : String :=
  "né\n  \x7b\x7b#day\x7d\x7d\n \t\x7b\x7b! off \x7d\x7d\n" ++
    "\t\x7b\x7b>duty\x7d\x7d\n  \x7b\x7b/day\x7d\x7d"

/-- The first tag is found behind two blanks. -/
example : (turnCutting rota.toList none [] (start .standard)).1.map Lone.front = ["  "] := by
  decide +kernel

theorem roundCutting_rota : Delimiters.standard.Valid ∧
    ∃ result m lones, Returns (roundCutting rota) (none, []) (start .standard, [])
        (some (ended result (m, lones))) ∧
      result.map Prod.fst = .ok [.text "né\n",
        .sect ⟨"day", false, ⟨rota, 15, 39, .standard⟩, [.inclusion ⟨"duty", "\t", none⟩]⟩] ∧
      ∀ l ∈ lones, l.Exact := by
  obtain ⟨result, m, lones, returned, parsed, exact⟩ :=
    roundCutting_returns rota Delimiters.standard_valid
  have read : Template.parseWith .standard rota = .ok ⟨none, rota, [.text "né\n",
      .sect ⟨"day", false, ⟨rota, 15, 39, .standard⟩, [.inclusion ⟨"duty", "\t", none⟩]⟩]⟩ := by
    decide +kernel
  rw [read] at parsed
  exact ⟨Delimiters.standard_valid, result, m, lones, returned, parsed, exact⟩

end Reader

end Mustache
