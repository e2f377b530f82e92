import Mustache.Proofs.Render.Shifted

/-! Sections. A section renders its children under one frame after the other, the items of a list in
their order, and takes each frame back before the next. Which frames these are is decided by the value
of its name; where there is none, the inverted section renders the children instead. -/
namespace Mustache

/-- The frames under which an upright section renders its children for a value. A lambda is not a
frame, and gets the body instead. -/
def Value.frames : Value → List Value
  | null => []
  | bool b => if b then [bool b] else []
  | int n => if n = 0 then [] else [int n]
  | float x => if Binary64.isZero x then [] else [float x]
  | str s => if s.isEmpty then [] else [str s]
  | list items => items
  | map entries => [map entries]
  | lambda _ => []

/-- The coarse classification and the frames agree on every value but a lambda. -/
theorem Value.shape_eq_falsey_iff {v : Value} (plain : ∀ l, v ≠ lambda l) :
    v.shape = .falsey ↔ v.frames = [] := by
  cases v with
  | null => simp only [shape, frames]
  | bool b => cases b <;> simp [shape, frames]
  | int n => by_cases zero : n = 0 <;> simp [shape, frames, zero]
  | float x => cases zero : Binary64.isZero x <;> simp [shape, frames, zero]
  | str s => cases empty : s.isEmpty <;> simp [shape, frames, empty]
  | list items => cases items <;> simp [shape, frames]
  | map entries => simp [shape, frames]
  | lambda l => exact absurd rfl (plain l)

/-- A value that is neither a list nor a lambda is its only frame, unless it is falsey. -/
theorem Value.frames_of_single {v : Value} (single : ∀ items, v ≠ list items)
    (plain : ∀ l, v ≠ lambda l) : v.frames = if v.shape = .falsey then [] else [v] := by
  split
  · rename_i falsey
    exact (shape_eq_falsey_iff plain).1 falsey
  · rename_i some
    rw [shape_eq_falsey_iff plain] at some
    cases v with
    | null => exact absurd rfl some
    | bool b => exact if_pos (by simpa [frames] using some)
    | int n => exact if_neg (by simpa [frames] using some)
    | float x => exact if_neg (by simpa [frames] using some)
    | str s => exact if_neg (by simpa [frames] using some)
    | list items => exact absurd rfl (single items)
    | map entries => rfl
    | lambda l => exact absurd rfl (plain l)

/-- A scalar is its only frame. -/
theorem Value.frames_of_scalar {v : Value} (scalar : v.shape = .scalar) : v.frames = [v] := by
  have single : ∀ items, v ≠ list items := by
    rintro (_ | ⟨item, rest⟩) rfl <;> simp [shape] at scalar
  have plain : ∀ l, v ≠ lambda l := by
    rintro l rfl
    simp [shape] at scalar
  rw [frames_of_single single plain, scalar]
  rfl

/-- The frames for what a name resolves to, none if it does not resolve. -/
def Context.sectionFrames (c : Context) (name : String) : List Value :=
  (c.resolve? name).elim [] Value.frames

theorem Context.sectionFrames_of_list {c : Context} {name : String} {items : List Value}
    (found : c.resolve? name = some (.list items)) : c.sectionFrames name = items := by
  unfold sectionFrames
  rw [found]
  rfl

namespace Render
variable {σ : Type} (setup : Setup σ) (deeper : Deeper σ) (env : Env) {s : Section}
  (plain : ∀ l, env.context.resolve? s.name ≠ some (.lambda l))
include plain

theorem visitUpright_eq (upright : s.inverted = false) :
    visitSection setup deeper env s = ((env.context.sectionFrames s.name).map env.context.push).forM
      fun context => deeper { env with context } s.children := by
  unfold visitSection Context.sectionFrames
  cases found : env.context.resolve? s.name with
  | none => exact if_neg (ne_true_of_eq_false upright)
  | some value =>
    have single (v : Value) (list : ∀ items, v ≠ .list items) (lambda : ∀ l, v ≠ .lambda l) :
        (if v.shape = .falsey then pure () else deeper (env.pushFrame v) s.children) =
          (v.frames.map env.context.push).forM fun context =>
            deeper { env with context } s.children := by
      rw [Value.frames_of_single list lambda]
      split
      · rfl
      · exact (bind_pure (deeper (env.pushFrame v) s.children)).symm
    refine (if_neg (ne_true_of_eq_false upright)).trans ?_
    cases value with
    | list items => exact (List.forM_map (m := RenderM σ) (l := items) (g := env.context.push)
        (f := fun context => deeper { env with context } s.children)).symm
    | lambda l => exact absurd found (plain l)
    | null => exact single .null nofun nofun
    | bool b => exact single (.bool b) nofun nofun
    | int n => exact single (.int n) nofun nofun
    | float x => exact single (.float x) nofun nofun
    | str t => exact single (.str t) nofun nofun
    | map entries => exact single (.map entries) nofun nofun

theorem visitInverted_eq (inverted : s.inverted = true) :
    visitSection setup deeper env s =
      if env.context.sectionFrames s.name = [] then deeper env s.children else pure () := by
  unfold visitSection Context.sectionFrames
  cases found : env.context.resolve? s.name with
  | none => exact if_pos inverted
  | some value =>
    have notLambda (l : Lambda) : value ≠ .lambda l := fun same => plain l (same ▸ found)
    refine (if_pos inverted).trans ?_
    refine Eq.trans ?_ (if_congr (Value.shape_eq_falsey_iff notLambda) rfl rfl)
    cases shape : value.shape with
    | falsey => rfl
    | scalar | sequence => rfl
    | renderable =>
      obtain ⟨l, rfl⟩ := Value.eq_lambda_of_shape shape
      exact absurd rfl (notLambda l)

end Render

namespace Render
variable {σ : Type} {setup : Setup σ} {root : List Node} {p : Value → Prop}

/-- No piece that a node writes, and no partial that is looked up, touches the host. -/
theorem margins_hosted (host : σ) :
    Margins setup root p (fun i j => j = i) fun _ s s' => s' = s ∧ s.host = host where
  flag := by
    rintro _ _ _ ⟨rfl, -⟩
    rfl
  loaded := by
    rintro _ s _ ⟨rfl, same⟩ name
    exact ⟨rfl, same⟩
  behind related := related
  text := by
    rintro i _ text rfl - s _ ⟨rfl, same⟩
    exact ⟨rfl, same⟩
  value := by
    rintro i _ name text escaped x rfl - - - s _ ⟨rfl, same⟩
    exact ⟨rfl, same⟩
  opened := by
    rintro i _ inner rfl - - s _ ⟨rfl, same⟩
    exact ⟨rfl, same⟩
  inside := by
    rintro i _ inner rfl -
    rfl

theorem host_descend (closed : Value.Closed p False) (room : Nat) {env : Env} {nodes : List Node}
    (surroundings : env.Supplied setup.loader root p)
    (supplied : ∀ n ∈ nodes, setup.loader.Supplies root n) (s : RenderState σ) :
    (final (descend setup room env nodes s)).host = s.host := by
  have place : Beside setup.loader root p (fun i j => j = i) env nodes env nodes :=
    .intro surroundings supplied rfl
  obtain ⟨-, -, same⟩ :=
    ((follows_beside (margins_hosted s.host) closed room _ _ _ _ place).ends ⟨rfl, rfl⟩).alike
  exact same

end Render

namespace InPlace
variable {σ : Type}

/-- Renders nodes one level down in a context, and takes both back. -/
def acceptBelow (setup : Setup σ) (m : InPlace σ) (context : Context) (nodes : List Node) :
    Except Error Unit × InPlace σ :=
  if setup.config.maxDepth ≤ m.depth then (.error (.depthExceeded setup.config.maxDepth), m)
  else
    let (result, after) := accept setup { m with context, depth := m.depth + 1 } nodes
    (result, { after with context := m.context, depth := m.depth })

/-- Goes on with a renderer that has not failed. -/
def andThen (r : Except Error Unit × InPlace σ)
    (next : InPlace σ → Except Error Unit × InPlace σ) : Except Error Unit × InPlace σ :=
  match r with
  | (.ok _, after) => next after
  | (.error error, after) => (.error error, after)

/-- Renders nodes in one context after the other, up to the first failure. -/
def acceptInEach (setup : Setup σ) (nodes : List Node) (m : InPlace σ) :
    List Context → Except Error Unit × InPlace σ
  | [] => (.ok (), m)
  | context :: rest =>
    andThen (m.acceptBelow setup context nodes) fun after => acceptInEach setup nodes after rest

theorem acceptBelow_eq_behind (setup : Setup σ) (m : InPlace σ) (context : Context)
    (nodes : List Node) :
    m.acceptBelow setup context nodes = m.behind (Render.descend setup
      (setup.config.maxDepth - m.depth) { m.env with context } nodes m.unwritten) := by
  unfold acceptBelow
  split
  · rename_i full
    rw [Nat.sub_eq_zero_of_le full]
    rfl
  · rename_i free
    have room : setup.config.maxDepth - m.depth = setup.config.maxDepth - (m.depth + 1) + 1 := by
      omega
    rw [accept_eq_behind, room]
    rfl

/-- A step goes on from where another has ended. -/
theorem behind_bind {first next : RenderM σ Unit} (shifts : Render.Shifts next) (m : InPlace σ) :
    m.behind ((first >>= fun _ => next) m.unwritten) =
      andThen (m.behind (first m.unwritten)) fun after => after.behind (next after.unwritten) := by
  rw [Render.bind_apply]
  cases first m.unwritten with
  | error error s => rfl
  | ok a s =>
    change m.behind (next s) = (m.resume s).behind (next s.unwritten)
    rw [shifts s]
    cases next s.unwritten with
    | ok a t => exact congrArg (Except.ok (), ·) (resume_resume m s t).symm
    | error error t => exact congrArg (Except.error error, ·) (resume_resume m s t).symm

/-- By induction on the contexts; each round begins in the surroundings of the first. -/
theorem acceptInEach_eq_behind (setup : Setup σ) (nodes : List Node) (m : InPlace σ)
    (contexts : List Context) :
    m.acceptInEach setup nodes contexts = m.behind ((contexts.forM fun context => Render.descend setup
      (setup.config.maxDepth - m.depth) { m.env with context } nodes) m.unwritten) := by
  induction contexts generalizing m with
  | nil => rfl
  | cons context rest ih =>
    have shifts : Render.Shifts (rest.forM fun context => Render.descend setup
        (setup.config.maxDepth - m.depth) { m.env with context } nodes) :=
      .forM fun context => (Render.adds_descend setup _ { m.env with context } nodes).shift
    refine Eq.trans ?_ (behind_bind shifts m).symm
    rw [← acceptBelow_eq_behind]
    unfold acceptInEach
    have first := acceptBelow_eq_behind setup m context nodes
    rw [first]
    cases Render.descend setup (setup.config.maxDepth - m.depth) { m.env with context } nodes
        m.unwritten with
    | ok a s => exact ih (m.resume s)
    | error error s => rfl

/-- The rounds over two lists of contexts are those over the first and then, if these succeed, those
over the second. -/
theorem acceptInEach_append (setup : Setup σ) (nodes : List Node) (m : InPlace σ)
    (first second : List Context) :
    m.acceptInEach setup nodes (first ++ second) =
      andThen (m.acceptInEach setup nodes first) fun after =>
        after.acceptInEach setup nodes second := by
  induction first generalizing m with
  | nil => rfl
  | cons context rest ih =>
    simp only [List.cons_append, acceptInEach, ih]
    rcases m.acceptBelow setup context nodes with ⟨⟨error⟩ | ⟨⟩, after⟩ <;> rfl

theorem acceptInEach_singleton (setup : Setup σ) (nodes : List Node) (m : InPlace σ)
    (context : Context) : m.acceptInEach setup nodes [context] = m.acceptBelow setup context nodes := by
  unfold acceptInEach
  rcases m.acceptBelow setup context nodes with ⟨⟨error⟩ | ⟨⟩, after⟩ <;> rfl

theorem accept_append_andThen (setup : Setup σ) (m : InPlace σ) (first second : List Node) :
    m.accept setup (first ++ second) =
      andThen (m.accept setup first) fun after => after.accept setup second := by
  rw [accept_append]
  rcases m.accept setup first with ⟨⟨error⟩ | ⟨⟩, after⟩ <;> rfl

/-- Without lambdas in the data the host is not asked for anything. -/
theorem host_accept (setup : Setup σ) {m : InPlace σ} (free : m.context.All Value.LambdaFree)
    (nodes : List Node) : (m.accept setup nodes).2.host = m.host := by
  have surroundings : m.env.Supplied setup.loader (nodes ++ m.env.overrides.blocks)
      Value.LambdaFree := .of_blocks free
  rw [accept_eq_behind]
  exact Render.host_descend Value.closed_lambdaFree (setup.config.maxDepth - m.depth + 1) surroundings
    (fun n mem => .root (List.mem_append_left _ mem)) m.unwritten

section Active
variable {setup : Setup σ} {m : InPlace σ} (active : setup.host.cancelled m.host = false)
include active

/-- An upright section renders its children under each of its frames. -/
theorem accept_upright {s : Section} (upright : s.inverted = false)
    (plain : ∀ l, m.context.resolve? s.name ≠ some (.lambda l)) :
    m.accept setup [.sect s] = m.acceptInEach setup s.children
      ((m.context.sectionFrames s.name).map m.context.push) := by
  rw [accept_of_active active, acceptInEach_eq_behind]
  exact congrArg (fun step => m.behind (step m.unwritten))
    (Render.visitUpright_eq setup _ m.env plain upright)

/-- An inverted section renders its children, where they stand, if the name has no frames. -/
theorem accept_inverted {s : Section} (inverted : s.inverted = true)
    (plain : ∀ l, m.context.resolve? s.name ≠ some (.lambda l)) :
    m.accept setup [.sect s] =
      if m.context.sectionFrames s.name = [] then m.acceptBelow setup m.context s.children
      else (.ok (), m) := by
  have handled := Render.visitInverted_eq setup
    (Render.descend setup (setup.config.maxDepth - m.depth)) m.env plain inverted
  rw [accept_of_active active, Render.handle, handled]
  change m.behind ((if m.context.sectionFrames s.name = [] then _ else _ : RenderM σ Unit) _) = _
  split
  · exact (acceptBelow_eq_behind setup m m.context s.children).symm
  · rfl

/-- A section over a scalar renders its children once, with the scalar on top. -/
theorem accept_scalar {s : Section} (upright : s.inverted = false) {v : Value}
    (found : m.context.resolve? s.name = some v) (scalar : v.shape = .scalar) :
    m.accept setup [.sect s] = m.acceptBelow setup (m.context.push v) s.children := by
  have plain (l : Lambda) : m.context.resolve? s.name ≠ some (.lambda l) := by
    intro same
    obtain rfl := Option.some.inj (found.symm.trans same)
    simp [Value.shape] at scalar
  have frames : m.context.sectionFrames s.name = [v] := by
    rw [Context.sectionFrames, found]
    exact Value.frames_of_scalar scalar
  rw [accept_upright active upright plain, frames]
  exact acceptInEach_singleton setup s.children m _

/-- A list section renders its children once for each item. -/
theorem accept_list {s : Section} {items : List Value} (upright : s.inverted = false)
    (found : m.context.resolve? s.name = some (.list items)) :
    m.accept setup [.sect s] = m.acceptInEach setup s.children (items.map m.context.push) := by
  have plain (l : Lambda) : m.context.resolve? s.name ≠ some (.lambda l) := by
    rw [found]
    nofun
  rw [accept_upright active upright plain, Context.sectionFrames_of_list found]

/-- The section over a list in two parts is one over the first part and one over the second: the first
leaves the context as it is, and the flag too. -/
theorem accept_list_append (free : m.context.All Value.LambdaFree) {s : Section}
    (upright : s.inverted = false) {one other : String} {xs ys : List Value}
    (both : m.context.resolve? s.name = some (.list (xs ++ ys)))
    (first : m.context.resolve? one = some (.list xs))
    (second : m.context.resolve? other = some (.list ys)) :
    m.accept setup [.sect s] =
      m.accept setup [.sect { s with name := one }, .sect { s with name := other }] := by
  have split := accept_append_andThen setup m [.sect { s with name := one }]
    [.sect { s with name := other }]
  have context := congrArg Env.context
    (surroundings_accept setup m [.sect { s with name := one }]).1
  have host := host_accept setup free [.sect { s with name := one }]
  rw [accept_list active upright both, List.map_append, acceptInEach_append]
  refine Eq.trans ?_ split.symm
  rw [accept_list active (s := { s with name := one }) upright first] at context host ⊢
  rcases ran : m.acceptInEach setup s.children (xs.map m.context.push) with ⟨⟨error⟩ | ⟨⟩, after⟩
  · rfl
  · rw [ran] at context host
    change after.context = m.context at context
    change after.host = m.host at host
    have flag : setup.host.cancelled after.host = false := by rw [host, active]
    have found : after.context.resolve? other = some (.list ys) := by rw [context, second]
    have rounds := accept_list flag (s := { s with name := other }) upright found
    rw [context] at rounds
    exact rounds.symm

/-- Sections are rendered in order, and one of two complementary sections is. If a render has not been
cancelled, then

* a section over a list renders its children once for each item, in the order of the items, each time
  one level down with the item alone on top of the context, up to the first failure;
* without lambdas in the data, the section over a list in two parts does what the section over the
  first part and then the section over the second do;
* for a value that is not a lambda, or none, either the value has frames, under which the upright
  section renders the children while the inverted one does nothing, or it has none and the inverted
  section renders the children where they stand while the upright one does nothing. -/
theorem accept_sections :
    (∀ (s : Section) (items : List Value), s.inverted = false →
      m.context.resolve? s.name = some (.list items) →
        m.accept setup [.sect s] =
          m.acceptInEach setup s.children (items.map m.context.push)) ∧
    (m.context.All Value.LambdaFree →
      ∀ (s : Section) (one other : String) (xs ys : List Value), s.inverted = false →
        m.context.resolve? s.name = some (.list (xs ++ ys)) →
        m.context.resolve? one = some (.list xs) → m.context.resolve? other = some (.list ys) →
          m.accept setup [.sect s] =
            m.accept setup [.sect { s with name := one }, .sect { s with name := other }]) ∧
    ∀ s : Section, (∀ l, m.context.resolve? s.name ≠ some (.lambda l)) →
      let upright := m.accept setup [.sect { s with inverted := false }]
      let inverted := m.accept setup [.sect { s with inverted := true }]
      let frames := m.context.sectionFrames s.name
      (frames ≠ [] ∧ upright = m.acceptInEach setup s.children (frames.map m.context.push) ∧
          inverted = (.ok (), m)) ∨
        (frames = [] ∧ upright = (.ok (), m) ∧
          inverted = m.acceptBelow setup m.context s.children) := by
  refine ⟨fun s items => accept_list active, fun free s one other xs ys upright =>
    accept_list_append active free upright, fun s plain => ?_⟩
  intro upright inverted frames
  have rounds : upright = m.acceptInEach setup s.children (frames.map m.context.push) :=
    accept_upright active (s := { s with inverted := false }) rfl plain
  have otherwise : inverted = if frames = [] then m.acceptBelow setup m.context s.children
      else (.ok (), m) :=
    accept_inverted active (s := { s with inverted := true }) rfl plain
  by_cases none : frames = []
  · rw [if_pos none] at otherwise
    rw [none] at rounds
    exact .inr ⟨none, rounds, otherwise⟩
  · rw [if_neg none] at otherwise
    exact .inl ⟨none, rounds, otherwise⟩

end Active

/-- The letters of a list one after the other, as of its two parts; and no letters without a list. -/
theorem accept_sections_of_letters :
    let setup : Setup ScriptedState := ⟨.standard, .empty, scriptedHost [] true⟩
    let data := Value.map [("head", .list [.str "a", .str "b"]),
      ("letters", .list [.str "a", .str "b", .str "c"]), ("tail", .list [.str "c"])]
    let m : InPlace ScriptedState := start data (some "page") .start
    let s : Section :=
      ⟨"letters", false, .absent, [.interpolation "." false, .text ";"]⟩
    setup.host.cancelled m.host = false ∧ m.context.All Value.LambdaFree ∧
      (m.accept setup [.sect s]).2.output = "a;b;c;" ∧
      m.accept setup [.sect s] =
        m.acceptInEach setup s.children
          ([.str "a", .str "b", .str "c"].map m.context.push) ∧
      m.accept setup [.sect s] =
        m.accept setup [.sect { s with name := "head" }, .sect { s with name := "tail" }] ∧
      m.accept setup [.sect { s with inverted := true }] = (.ok (), m) ∧
      m.accept setup [.sect { s with name := "words" }] = (.ok (), m) := by
  intro setup data m s
  have active : setup.host.cancelled m.host = false := rfl
  have free : m.context.All Value.LambdaFree :=
    .ofRoot (by simp [data, Value.LambdaFree, Value.LambdaFreeEntries, Value.LambdaFreeItems])
  have letters : m.context.resolve? "letters" = some (.list ([.str "a", .str "b"] ++ [.str "c"])) := by
    rfl
  have words : m.context.resolve? "words" = none := by rfl
  have plain (l : Lambda) : m.context.resolve? "letters" ≠ some (.lambda l) := by
    intro same
    rw [letters] at same
    cases same
  have nothing (l : Lambda) : m.context.resolve? "words" ≠ some (.lambda l) := by
    intro same
    rw [words] at same
    cases same
  obtain ⟨rounds, parts, either⟩ := accept_sections active
  have frames := Context.sectionFrames_of_list letters
  refine ⟨active, free, by decide +kernel, rounds s _ rfl letters,
    parts free s "head" "tail" _ _ rfl letters rfl rfl, ?_, ?_⟩
  · obtain ⟨-, -, skipped⟩ | ⟨none, -⟩ := either s plain
    · exact skipped
    · rw [frames] at none
      cases none
  · obtain ⟨some, -⟩ | ⟨-, quiet, -⟩ := either { s with name := "words" } nothing
    · exact absurd (by rw [Context.sectionFrames, words]; rfl) some
    · exact quiet

end InPlace

end Mustache
