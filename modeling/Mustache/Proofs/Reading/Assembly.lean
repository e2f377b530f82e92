import Mustache.Proofs.Reading.Bodies
import Mustache.Proofs.Reading.Cursor

/-! Reading on from a cursor into a tree under construction, and what the outcome depends on: not on
the place of the cursor, not on what lies in front of the nodes, and not on where text is cut. -/
namespace Mustache

/-- Reads on to the end of the source. -/
def Cursor.read (source : String) (c : Cursor) (a : Assembly) : Except ParseError (List Node) := do
  let a ← c.scan.segments.foldlM (Assembly.add source) a
  a.finish c.scan.ending

theorem parseNodes_eq (source : String) (d : ValidDelimiters) :
    parseNodes source d = (Cursor.ofSource source d).read source .empty := rfl

namespace Cursor
variable {c next : Cursor} {segment : Segment} {ending : Ending} {source : String}

theorem read_of_error (h : c.step = .error ending) (a : Assembly) :
    c.read source a = a.finish ending := by
  rw [read, scan_of_error h]
  rfl

theorem read_of_ok (h : c.step = .ok (segment, next)) (a : Assembly) :
    c.read source a = a.add source segment >>= next.read source := by
  rw [read, scan_of_ok h, List.foldlM_cons]
  cases a.add source segment <;> rfl

/-- Induction on the steps that are left. -/
theorem induction_step {p : Cursor → Prop}
    (step : ∀ c : Cursor, (∀ segment next, c.step = .ok (segment, next) → p next) → p c)
    (c : Cursor) : p c :=
  step c fun _ next _ => induction_step step next
termination_by c.rest.length
decreasing_by exact length_rest_of_step ‹_›

/-- What every step makes sure of its segment holds of all segments. -/
theorem forall_scan {p : Segment → Prop}
    (step : ∀ {c : Cursor} {segment next}, c.step = .ok (segment, next) → p segment) (c : Cursor) :
    ∀ segment ∈ c.scan.segments, p segment := by
  induction c using induction_step with
  | step c ih =>
    cases read : c.step with
    | error ending =>
      rw [scan_of_error read]
      exact List.forall_mem_nil _
    | ok q =>
      obtain ⟨segment, next⟩ := q
      rw [scan_of_ok read]
      exact List.forall_mem_cons.2 ⟨step read, ih segment next read⟩

end Cursor

namespace Node
variable {nodes base : List Node} {n : Node} {f : Body → Body}

@[simp] theorem pushText_empty (nodes : List Node) : pushText "" nodes = nodes := rfl

@[simp] theorem pushText_text (text last : String) (rest : List Node) :
    pushText text (.text last :: rest) = .text (last ++ text) :: rest := by
  unfold pushText
  split
  · rename_i empty
    rw [String.isEmpty_iff.1 empty, String.append_empty]
  · rfl

/-- A text is newest on a level, or further text makes a new node there. -/
theorem text_or_pushText (nodes : List Node) :
    (∃ last rest, nodes = .text last :: rest) ∨
      ∀ text, text ≠ "" → pushText text nodes = .text text :: nodes := by
  unfold pushText
  rcases nodes with _ | ⟨n, rest⟩
  · exact .inr fun text h => by simp [h]
  · cases n with
    | text last => exact .inl ⟨last, rest, rfl⟩
    | _ => exact .inr fun text h => by simp [h]

theorem pushText_append (first second : String) (nodes : List Node) :
    pushText (first ++ second) nodes = pushText second (pushText first nodes) := by
  rcases text_or_pushText nodes with ⟨last, rest, rfl⟩ | new
  · simp [String.append_assoc]
  · by_cases empty : first = ""
    · simp [empty]
    · rw [new first empty, new (first ++ second) (by simp [empty]), pushText_text]

/-- The newest node of a level is no text without characters. -/
def Solid (nodes : List Node) : Prop := nodes.head? ≠ some (.text "")

theorem solid_pushText (h : Solid nodes) (text : String) : Solid (pushText text nodes) := by
  by_cases empty : text = ""
  · rwa [empty]
  · rcases text_or_pushText nodes with ⟨last, rest, rfl⟩ | new
    · simp [Solid, empty]
    · simp [new text empty, Solid, empty]

/-- An indent is taken back from text that ends in it. -/
theorem trimIndent_text {indent : String} (some : indent ≠ "") (text : String) (rest : List Node) :
    trimIndent indent (.text (text ++ indent) :: rest) =
      if text = "" then rest else .text text :: rest := by
  have kept : (text ++ indent).toList.take ((text ++ indent).toList.length - indent.toList.length) =
      text.toList := by
    simp
  unfold trimIndent
  rw [if_neg (by simpa using some)]
  simp only [kept, String.ofList_toList, List.isEmpty_iff, String.toList_eq_nil_iff]

/-- What a tag leaves of the text in front of it. -/
theorem trimIndent_pushText (h : Solid nodes) (kept indent : String) :
    trimIndent indent (pushText (kept ++ indent) nodes) = pushText kept nodes := by
  by_cases empty : indent = ""
  · simp [empty, trimIndent]
  · rcases text_or_pushText nodes with ⟨last, rest, rfl⟩ | new
    · have full : last ++ kept ≠ "" := fun e =>
        h (by rw [(String.append_eq_empty_iff.1 e).1]; rfl)
      rw [pushText_text, pushText_text, ← String.append_assoc, trimIndent_text empty, if_neg full]
    · rw [new (kept ++ indent) (by simp [empty]), trimIndent_text empty]
      by_cases none : kept = ""
      · simp [none]
      · rw [if_neg none, new kept none]

theorem pushText_map (text : String) (nodes : List Node) :
    pushText text (nodes.map (mapBody f)) = (pushText text nodes).map (mapBody f) := by
  unfold pushText
  split
  · rfl
  · rcases nodes with _ | ⟨n, rest⟩
    · rfl
    · cases n <;> rfl

theorem trimIndent_map (indent : String) (nodes : List Node) :
    trimIndent indent (nodes.map (mapBody f)) = (trimIndent indent nodes).map (mapBody f) := by
  unfold trimIndent
  split
  · rfl
  · rcases nodes with _ | ⟨n, rest⟩
    · rfl
    · cases n with
      | text last =>
        simp only [List.map_cons, mapBody_text]
        split <;> rfl
      | _ => rfl

theorem block?_mapBody (n : Node) : (n.mapBody f).block? = n.block?.map (Block.mapBody f) := by
  cases n <;> rfl

theorem filterMap_block?_map (nodes : List Node) :
    (nodes.map (mapBody f)).filterMap block? = (nodes.filterMap block?).map (Block.mapBody f) := by
  simp only [List.filterMap_map, List.map_filterMap]
  congr 1
  funext n
  exact block?_mapBody n

/-! One list of nodes after another -/

/-- The nodes of two sources one after the other: a text that ends the first and a text that begins
the second become one. -/
def join (first second : List Node) : List Node :=
  match first.getLast?, second with
  | some (.text t), .text u :: rest => first.dropLast ++ .text (t ++ u) :: rest
  | _, _ => first ++ second

theorem join_append (first more : List Node) (n : Node) (second : List Node) :
    join first (n :: second ++ more) = join first (n :: second) ++ more := by
  unfold join
  cases n <;> cases first.getLast? with
  | none => simp
  | some m => cases m <;> simp

/-- The same for a level under construction, whose newest nodes come first. -/
def onto : (nodes base : List Node) → List Node
  | [], base => base
  | [.text t], .text last :: base => .text (last ++ t) :: base
  | n :: nodes, base => n :: onto nodes base

theorem onto_cons (h : ∀ text, n ≠ .text text) (nodes base : List Node) :
    onto (n :: nodes) base = n :: onto nodes base := by
  cases n with
  | text t => exact absurd rfl (h t)
  | _ => rfl

theorem reverse_onto (nodes base : List Node) :
    (onto nodes base).reverse = join base.reverse nodes.reverse := by
  fun_induction onto nodes base with
  | case1 base => simp [join]
  | case2 t last base => simp [join]
  | case3 n nodes base apart ih =>
    rw [List.reverse_cons, List.reverse_cons, ih]
    cases older : nodes.reverse with
    | cons m more => rw [join_append]
    | nil =>
      obtain rfl := List.reverse_eq_nil_iff.1 older
      rcases base with _ | ⟨m, base⟩
      · cases n <;> simp [join]
      · cases n with
        | text t =>
          cases m with
          | text last => exact (apart t last base rfl rfl rfl).elim
          | _ => simp [join]
        | _ => simp [join]

theorem pushText_onto (text : String) (nodes base : List Node) :
    pushText text (onto nodes base) = onto (pushText text nodes) base := by
  by_cases empty : text = ""
  · simp [empty]
  · fun_induction onto nodes base with
    | case1 base =>
      rcases base with _ | ⟨n, base⟩
      · simp [pushText, empty, onto]
      · cases n <;> simp [pushText, empty, onto]
    | case2 t last base => simp [onto, String.append_assoc]
    | case3 n nodes base apart ih =>
      cases n with
      -- the newest node takes the text, and it is not the one that meets the base
      | text u =>
        rw [pushText_text, pushText_text, onto]
        exact fun t last older hb _ hn => apart u last older hb rfl hn
      | _ => simp [pushText, empty, onto]

theorem solid_onto (h : Solid nodes) (hb : Solid base) : Solid (onto nodes base) := by
  fun_induction onto nodes base with
  | case1 base => exact hb
  | case2 t last base =>
    have full : t ≠ "" := fun e => h (by rw [e]; rfl)
    simp [Solid, full]
  | case3 n nodes base apart ih => exact h

end Node

namespace Assembly
variable {a b : Assembly} {segment : Segment} {source : String} {kept : String}

/-- The newest node of the innermost level is no text without characters. -/
def Solid (a : Assembly) : Prop := Node.Solid a.nodes

theorem solid_empty : empty.Solid := nofun

/-- The level, once the text in front of a tag is in place. -/
def pushText (text : String) (a : Assembly) : Assembly :=
  { a with nodes := Node.pushText text a.nodes }

theorem add_eq (h : a.Solid) (parts : segment.lead = kept ++ segment.tag.indent) :
    a.add source segment = (a.pushText kept).addTag source segment.tag := by
  unfold add pushText
  rw [parts, Node.trimIndent_pushText h]

theorem solid_pushText (h : a.Solid) (text : String) : (a.pushText text).Solid :=
  Node.solid_pushText h text

theorem solid_addTag {tag : Tag} (h : a.Solid) (ok : a.addTag source tag = .ok b) : b.Solid := by
  cases addTag_ok_iff.1 ok with
  | nothing => exact h
  | @closing f =>
    unfold Frame.close
    cases f.opener <;> simp [Solid, Node.Solid]
  | interpolation | inclusion | opening => simp [Solid, Node.Solid]

theorem solid_add (h : a.Solid) (parts : segment.lead = kept ++ segment.tag.indent)
    (ok : a.add source segment = .ok b) : b.Solid := by
  rw [add_eq h parts] at ok
  exact solid_addTag (solid_pushText h kept) ok

end Assembly

/-! A longer source -/

/-- An open tag of a source that lies within a longer one. -/
def Frame.within (source : String) (bytes : Nat) (f : Frame) : Frame :=
  { f with
    bodyStart := bytes + f.bodyStart
    before := f.before.map (Node.mapBody (Body.within source bytes)) }

@[simp] theorem Frame.name_within (source : String) (bytes : Nat) (f : Frame) :
    (f.within source bytes).name = f.name := rfl

theorem Frame.close_ne_text (source : String) (f : Frame) (stop : Nat) (children : List Node)
    (text : String) : f.close source stop children ≠ .text text := by
  unfold close
  cases f.opener <;> exact nofun

theorem Frame.close_within (source longer : String) (bytes : Nat) (f : Frame) (stop : Nat)
    (children : List Node) :
    (f.within longer bytes).close longer (bytes + stop)
        (children.map (Node.mapBody (Body.within longer bytes))) =
      (f.close source stop children).mapBody (Body.within longer bytes) := by
  unfold close within
  cases f.opener with
  | sect inverted => simp only [Node.mapBody, Section.mapBody, Node.mapBodies_eq, Body.within]
  | parent => simp only [Node.mapBody_parent, Node.filterMap_block?_map]
  | block => simp only [Node.mapBody, Block.mapBody, Node.mapBodies_eq]

namespace Assembly
variable {segment : Segment} {source : String}

/-- A tree under construction out of a source that lies within a longer one. -/
def within (source : String) (bytes : Nat) (a : Assembly) : Assembly :=
  ⟨a.frames.map (Frame.within source bytes),
    a.nodes.map (Node.mapBody (Body.within source bytes))⟩

section Within
variable (longer : String) (bytes lines : Nat)

theorem addTag_within (a : Assembly) {tag : Tag}
    (fits : Text.byteLength tag.indent.toList ≤ tag.start.offset) :
    (a.within longer bytes).addTag longer (tag.shift bytes lines) =
      ((a.addTag source tag).map (within longer bytes)).mapError (ParseError.shift lines) := by
  have stop : (tag.shift bytes lines).bodyStop = bytes + tag.bodyStop :=
    Nat.add_sub_assoc fits bytes
  unfold addTag
  rw [stop]
  have kind : (tag.shift bytes lines).directive = tag.directive := rfl
  rw [kind]
  cases tag.directive with
  | interpolation | inclusion | comment | delimiters | opening => rfl
  | closing name =>
    obtain ⟨frames, nodes⟩ := a
    cases frames with
    | nil => rfl
    | cons f outer =>
      simp only [within, List.map_cons, ← List.map_reverse, Frame.name_within,
        Frame.close_within source]
      by_cases same : f.name = name
      · rw [if_pos same, if_pos same]
        rfl
      · rw [if_neg same, if_neg same]
        rfl

theorem add_within (a : Assembly)
    (fits : Text.byteLength segment.tag.indent.toList ≤ segment.tag.start.offset) :
    (a.within longer bytes).add longer (segment.shift bytes lines) =
      ((a.add source segment).map (within longer bytes)).mapError (ParseError.shift lines) := by
  unfold add
  rw [← addTag_within longer bytes lines _ fits]
  simp only [within, Segment.shift, Node.pushText_map, ← Node.trimIndent_map]
  rfl

theorem finish_within (a : Assembly) (ending : Ending) :
    (a.within longer bytes).finish (ending.shift bytes lines) =
      ((a.finish ending).map (List.map (Node.mapBody (Body.within longer bytes)))).mapError
        (ParseError.shift lines) := by
  obtain ⟨frames, nodes⟩ := a
  cases ending with
  | failed error => rfl
  | finished text place d =>
    cases frames with
    | nil =>
      simp only [within, Ending.shift, finish, List.map_nil, Node.pushText_map, ← List.map_reverse]
      rfl
    | cons f outer => rfl

end Within

end Assembly

/-- A source that lies within a longer one is read to the same tree, and to the same error. -/
theorem Cursor.read_within (longer source : String) (bytes lines : Nat) (c : Cursor)
    (fresh : c.Fresh) (a : Assembly) :
    (c.shift bytes lines).read longer (a.within longer bytes) =
      ((c.read source a).map (List.map (Node.mapBody (Body.within longer bytes)))).mapError
        (ParseError.shift lines) := by
  induction c using Cursor.induction_step generalizing a with
  | step c ih =>
    have shifted := c.step_shift bytes lines
    cases read : c.step with
    | error ending =>
      rw [read] at shifted
      rw [read_of_error shifted, read_of_error read, Assembly.finish_within]
    | ok p =>
      obtain ⟨segment, next⟩ := p
      obtain ⟨kept, parts, -⟩ := lead_step fresh read
      have fits : Text.byteLength segment.tag.indent.toList ≤ segment.tag.start.offset := by
        rw [start_step read parts]
        exact Nat.le_add_left _ _
      rw [read] at shifted
      rw [read_of_ok shifted, read_of_ok read,
        Assembly.add_within longer bytes lines a fits]
      cases a.add source segment with
      | error e => rfl
      | ok b => exact ih segment next read (fresh_step read) b

/-! Nodes in front -/

/-- The open tags, with nodes in front of all that has been read. -/
def Frame.onto (base : List Node) : List Frame → List Frame
  | [] => []
  | [f] => [{ f with before := Node.onto f.before base }]
  | f :: g :: outer => f :: onto base (g :: outer)

namespace Assembly
variable {a : Assembly} {source : String} {base : List Node}

/-- A tree under construction, with nodes in front of all that has been read. -/
def onto (base : List Node) : Assembly → Assembly
  | ⟨[], nodes⟩ => ⟨[], Node.onto nodes base⟩
  | ⟨f :: outer, nodes⟩ => ⟨Frame.onto base (f :: outer), nodes⟩

theorem addTag_onto (base : List Node) (a : Assembly) (tag : Tag) :
    (a.onto base).addTag source tag = (a.addTag source tag).map (onto base) := by
  unfold addTag
  obtain ⟨frames, nodes⟩ := a
  cases tag.directive with
  | interpolation | inclusion | comment | delimiters | opening => cases frames <;> rfl
  | closing name =>
    rcases frames with _ | ⟨f, outer⟩
    · rfl
    · by_cases same : f.name = name
      -- a level that closes joins the nodes in front where it is the only one
      · cases outer with
        | nil =>
          have apart := Frame.close_ne_text source f tag.bodyStop nodes.reverse
          simp only [onto, Frame.onto, if_pos same, Except.map, Node.onto_cons apart]
          rfl
        | cons g outer => simp only [onto, Frame.onto, if_pos same, Except.map]
      · cases outer <;> simp only [onto, Frame.onto, if_neg same, Except.map]

theorem pushText_onto (base : List Node) (a : Assembly) (text : String) :
    (a.onto base).pushText text = (a.pushText text).onto base := by
  obtain ⟨_ | ⟨f, outer⟩, nodes⟩ := a
  · simp only [onto, pushText, Node.pushText_onto]
  · rfl

theorem solid_onto (h : a.Solid) (hb : Node.Solid base) : (a.onto base).Solid := by
  obtain ⟨_ | ⟨f, outer⟩, nodes⟩ := a
  · exact Node.solid_onto h hb
  · exact h

theorem finish_onto (base : List Node) (a : Assembly) (ending : Ending) :
    (a.onto base).finish ending = (a.finish ending).map (Node.join base.reverse) := by
  obtain ⟨frames, nodes⟩ := a
  cases ending with
  | failed error => rfl
  | finished text place d =>
    rcases frames with _ | ⟨f, _ | ⟨g, outer⟩⟩
    · simp only [onto, finish, Node.pushText_onto, Node.reverse_onto, Except.map]
    · rfl
    · rfl

end Assembly

/-- What is read behind some nodes follows them. -/
theorem Cursor.read_onto {base : List Node} (hb : Node.Solid base) (source : String) (c : Cursor)
    (fresh : c.Fresh) {a : Assembly} (ha : a.Solid) :
    c.read source (a.onto base) = (c.read source a).map (Node.join base.reverse) := by
  induction c using Cursor.induction_step generalizing a with
  | step c ih =>
    cases read : c.step with
    | error ending => rw [read_of_error read, read_of_error read, Assembly.finish_onto]
    | ok p =>
      obtain ⟨segment, next⟩ := p
      obtain ⟨kept, parts, -⟩ := lead_step fresh read
      have added : (a.onto base).add source segment =
          (a.add source segment).map (Assembly.onto base) := by
        rw [Assembly.add_eq (Assembly.solid_onto ha hb) parts, Assembly.add_eq ha parts,
          Assembly.pushText_onto, Assembly.addTag_onto]
      rw [read_of_ok read, read_of_ok read, added]
      cases ok : a.add source segment with
      | error e => rfl
      | ok b => exact ih segment next read (fresh_step read) (Assembly.solid_add ha parts ok)

theorem Assembly.add_behind (source text : String) (a : Assembly) (segment : Segment) :
    a.add source (segment.behind text) = (a.pushText text).add source segment := by
  unfold add pushText Segment.behind
  rw [Node.pushText_append]

theorem Assembly.finish_behind (text : String) (a : Assembly) (ending : Ending) :
    a.finish (ending.behind text) = (a.pushText text).finish ending := by
  cases ending with
  | failed error => rfl
  | finished last place d =>
    unfold finish pushText Ending.behind
    simp only [Node.pushText_append]

/-- Text in which no tag opens can be put in place before reading on. -/
theorem Cursor.read_skip {c : Cursor} {n : Nat}
    (h : ∀ k < n, ¬ c.delimiters.val.opening.toList <+: c.rest.drop k) (source : String)
    (a : Assembly) :
    c.read source a = (c.skip n).read source (a.pushText (String.ofList (c.rest.take n))) := by
  have skipped := step_skip h
  cases read : (c.skip n).step with
  | error ending =>
    rw [read] at skipped
    rw [read_of_error skipped, read_of_error read, Assembly.finish_behind]
  | ok p =>
    obtain ⟨segment, next⟩ := p
    rw [read] at skipped
    rw [read_of_ok skipped, read_of_ok read]
    exact congrArg (· >>= next.read source) (Assembly.add_behind source _ a segment)

end Mustache
