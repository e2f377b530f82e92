import Mustache.Proofs.Render.Restoration
import Mustache.Proofs.Render.Shifted
import Mustache.Proofs.Render.Simulation

/-! A layout and the same layout with its blocks filled in. Where no other overrides are in force and
the layout has no partials, a partial with overrides does what a plain one does on the tree in which
the content of the overrides stands for the children of their blocks. -/
namespace Mustache

mutual

/-- Puts the content of overrides in the place of the children of their blocks. A block that has none
is searched further; content that has been put in is not. -/
def Node.fill (scope : OverrideScope) : Node → Node
  | .text text => .text text
  | .interpolation name escaped => .interpolation name escaped
  | .sect s => .sect (s.fill scope)
  | .inclusion i => .inclusion i
  | .parent i overrides => .parent i overrides
  | .block b => .block (b.fill scope)

def Section.fill (scope : OverrideScope) : Section → Section
  | ⟨name, inverted, body, children⟩ => ⟨name, inverted, body, Node.fills scope children⟩

def Block.fill (scope : OverrideScope) : Block → Block
  | ⟨name, children⟩ =>
    match scope.get? name with
    | some override => ⟨name, override.children⟩
    | none => ⟨name, Node.fills scope children⟩

def Node.fills (scope : OverrideScope) : List Node → List Node
  | [] => []
  | n :: rest => n.fill scope :: Node.fills scope rest

end

/-- The template with its blocks filled in. -/
def Template.fill (scope : OverrideScope) (t : Template) : Template :=
  { t with nodes := Node.fills scope t.nodes }

section Fields
variable (scope : OverrideScope)

theorem Node.fills_eq (nodes : List Node) : fills scope nodes = nodes.map (fill scope) := by
  induction nodes with
  | nil => rfl
  | cons n rest ih => rw [fills, ih, List.map_cons]

@[simp] theorem Section.name_fill (s : Section) : (s.fill scope).name = s.name := by
  cases s
  rfl

@[simp] theorem Section.inverted_fill (s : Section) : (s.fill scope).inverted = s.inverted := by
  cases s
  rfl

@[simp] theorem Section.children_fill (s : Section) :
    (s.fill scope).children = Node.fills scope s.children := by
  cases s
  rfl

theorem Block.children_fill (b : Block) :
    (b.fill scope).children =
      ((scope.get? b.name).map Block.children).getD (Node.fills scope b.children) := by
  obtain ⟨name, children⟩ := b
  simp only [Block.fill]
  cases scope.get? name <;> rfl

end Fields

theorem Overrides.resolve?_empty (name : String) : empty.resolve? name = none := rfl

theorem Overrides.resolve?_singleton (scope : OverrideScope) (name : String) :
    (empty.push scope).resolve? name = (scope.get? name).map fun b => (b, empty) := by
  change (find? name [scope]).map _ = _
  unfold find?
  cases scope.get? name <;> rfl

/-- The same has been written, and the host is in the same state. With `asked`, the same has been
asked for as well. -/
structure RenderState.Alike {σ : Type} (asked : Prop) (s s' : RenderState σ) : Prop where
  writes : s.writes = s'.writes
  host : s.host = s'.host
  requests (exact : asked) : s.requests = s'.requests

theorem RenderState.Alike.lockstep {σ : Type} (asked : Prop) (h : Host σ) :
    h.Lockstep h (Alike asked) where
  writes alike := alike.writes
  written alike _ := ⟨rfl, alike.host, alike.requests⟩
  cancelled alike := by rw [alike.host]
  answer alike _ _ := by rw [alike.host]
  called alike _ _ := ⟨alike.writes, by rw [alike.host],
    fun exact => congrArg (_ :: ·) (alike.requests exact)⟩
  loaded alike _ := ⟨alike.writes, alike.host,
    fun exact => congrArg (_ :: ·) (alike.requests exact)⟩

namespace Render
variable {σ : Type}

/-- Inside of a layout the overrides are in force on the one side, and filled in on the other. Inside
of an override both sides are the same. -/
inductive Filling (scope : OverrideScope) : Places
  | layout {env : Env} {nodes : List Node} (none : env.overrides = .empty)
    (free : env.context.All Value.LambdaFree) (flat : Node.Everywhere Node.PartialFree nodes) :
    Filling scope { env with overrides := env.overrides.push scope } nodes env
      (Node.fills scope nodes)
  | content {env : Env} {nodes : List Node} : Filling scope env nodes env nodes

section Meeting
variable {asked : Prop} {setup : Setup σ} {scope : OverrideScope} {env : Env}
  (none : env.overrides = .empty)
include none

theorem filling_block (free : env.context.All Value.LambdaFree) {b : Block}
    (flat : Node.Everywhere Node.PartialFree b.children) :
    let inherited := { env with overrides := env.overrides.push scope }
    Filling scope (inherited.atContent b) (inherited.overrides.content b).1.children
      (env.atContent (b.fill scope)) (env.overrides.content (b.fill scope)).1.children := by
  obtain ⟨context, overrides, path, indent⟩ := env
  obtain rfl : overrides = .empty := none
  simp only [Env.atContent, Overrides.content, Overrides.resolve?_singleton,
    Overrides.resolve?_empty, Option.getD_none, Block.children_fill]
  cases scope.get? b.name with
  | none => exact .layout rfl free flat
  | some override => exact .content

/-- One case for each kind of node. -/
theorem meets_fill (free : env.context.All Value.LambdaFree) {n : Node}
    (flat : Node.Everywhere Node.PartialFree [n]) :
    n.Meets setup.loader False (fun _ => False) (fun x y => x = y ∧ x.LambdaFree)
      (fun _ => (RenderState.Alike asked : RenderState σ → RenderState σ → Prop)) (Filling scope)
      { env with overrides := env.overrides.push scope } env (n.fill scope) := by
  have lock := RenderState.Alike.lockstep asked setup.host
  have found (name : String) := found_of_all Value.closed_lambdaFree free name
  obtain ⟨here, parts, -⟩ := Node.everywhere_cons.1 flat
  cases n with
  | text t => exact .text (keeps_of_lockstep lock _)
  | interpolation name escaped =>
    exact .interpolation (found name) (fun _ _ => keeps_of_lockstep lock _) False.elim
  | sect s =>
    have children : Filling scope { env with overrides := env.overrides.push scope } s.children env
        (s.fill scope).children := s.children_fill scope ▸ .layout none free parts
    refine .sect ⟨(s.name_fill scope).symm, (s.inverted_fill scope).symm, ?_, children, ?_,
      False.elim, False.elim⟩
    · rw [s.name_fill]
      exact found s.name
    · rintro x _ ⟨rfl, hx⟩
      rw [s.children_fill]
      exact @Filling.layout _ (env.pushFrame x) _ none (free.push hx) parts
  | inclusion i => exact here.elim
  | parent i overrides => exact here.elim
  | block b => exact .block (filling_block none free parts)

end Meeting

/-- An override takes a level on both sides: on the one side it is found for the block, on the other
its content stands in the block. -/
theorem follows_filling (asked : Prop) (setup : Setup σ) (scope : OverrideScope) (room : Nat) :
    Deeper.Follows (fun _ => False) (fun _ => RenderState.Alike asked) (Filling scope)
      (descend setup room) (descend setup room) := by
  have lock := RenderState.Alike.lockstep asked setup.host
  refine follows_of_same_or_meets lock (setup.config.leads_refl _) rfl Value.closed_lambdaFree.kin
    (fun place => ?_) (.inl ⟨rfl, rfl⟩)
  cases place with
  | content => exact .inl ⟨rfl, rfl⟩
  | layout none free flat =>
    right
    rw [Node.fills_eq]
    refine List.forall₂_map_right_iff.2 (List.forall₂_same.2 fun n mem => ?_)
    exact meets_fill none free (Node.everywhere_iff_forall.1 flat n mem)

/-- One partial with overrides, from the check that the render goes on to the end of its template. -/
theorem visitAll_parent (setup : Setup σ) (room : Nat) (env : Env) (i : Inclusion)
    (scope : OverrideScope) :
    visitAll setup room env [.parent i scope] = checkCancelled setup >>= fun _ =>
      target setup i >>= visitTemplate (descend setup room)
        { env with overrides := env.overrides.push scope } i := by
  rw [visitAll_singleton, ← visitInclusion_eq]
  rfl

theorem target_of_target? {setup : Setup σ} {i : Inclusion} {t : Template}
    (found : setup.loader.target? i = some t) (s : RenderState σ) :
    ∃ s', target setup i s = .ok t s' ∧ s'.Alike (i.target = some t) s := by
  unfold Loader.target? at found
  unfold target
  cases settled : i.target with
  | some _ =>
    rw [settled] at found
    obtain rfl := Option.some.inj found
    exact ⟨s, rfl, rfl, rfl, fun _ => rfl⟩
  | none =>
    rw [settled] at found
    simp only [load, show setup.loader i.name = some t from found]
    refine ⟨_, rfl, rfl, rfl, fun same => ?_⟩
    cases same

/-- A partial with overrides and the plain one end alike. -/
theorem ends_filled (setup : Setup σ) (room : Nat) {env : Env} (none : env.overrides = .empty)
    (free : env.context.All Value.LambdaFree) (i : Inclusion) (scope : OverrideScope) {t : Template}
    (found : setup.loader.target? i = some t) (flat : Node.Everywhere Node.PartialFree t.nodes)
    (s : RenderState σ) :
    Ends (RenderState.Alike (i.target = some t)) (fun _ => False)
      (visitAll setup room env [.parent i scope] s)
      (visitAll setup room env [.inclusion { i with target := some (t.fill scope) }] s) := by
  have lock := RenderState.Alike.lockstep (i.target = some t) setup.host
  have tandem := tandem_of_lockstep False lock (setup.config.leads_refl fun _ => False) rfl
  have enters : Inclusion.Enters (fun _ => False) (Filling scope)
      { env with overrides := env.overrides.push scope } env { i with target := some t }
      { i with target := some (t.fill scope) } t (t.fill scope) := by
    intro path path' entered entered' _
    obtain rfl := Except.ok.inj (entered.symm.trans entered')
    exact @Filling.layout _ (env.inside i path) _ none free flat
  have meets : Inclusion.Meets setup.loader (fun _ => False)
      (fun _ => (RenderState.Alike (i.target = some t) : RenderState σ → RenderState σ → Prop))
      (Filling scope) { env with overrides := env.overrides.push scope } env
      { i with target := some t } { i with target := some (t.fill scope) } :=
    ⟨rfl, rfl, .inl rfl, fun _ => keeps_of_lockstep lock _, .some enters, nofun⟩
  rw [visitAll_parent, visitAll_inclusion]
  refine .bind_same ⟨rfl, rfl, fun _ => rfl⟩ fun _ s _ => ?_
  obtain ⟨s', ran, alike⟩ := target_of_target? found s
  rw [bind_apply, ran]
  exact (meets_visitTemplate tandem (follows_filling _ setup scope room) meets enters).ends alike

end Render

namespace InPlace
variable {σ : Type}

/-- With no other overrides in force, a partial with overrides does to a layout without partials what
a plain one does to the layout with the blocks filled in: it comes to the same result, whether it
succeeds or fails, and leaves the renderer in the same state. Only where the layout is looked up by
name, the lookup is the difference. -/
theorem accept_filled (setup : Setup σ) (m : InPlace σ) (none : m.overrides = .empty)
    (free : m.context.All Value.LambdaFree) (i : Inclusion) (scope : OverrideScope) {t : Template}
    (found : setup.loader.target? i = some t) (flat : Node.Everywhere Node.PartialFree t.nodes) :
    let inherited := m.accept setup [.parent i scope]
    let filled := m.accept setup [.inclusion { i with target := some (t.fill scope) }]
    inherited.1 = filled.1 ∧ { inherited.2 with requests := filled.2.requests } = filled.2 ∧
      (i.target = some t → inherited = filled) := by
  have ends := @Render.ends_filled _ setup (setup.config.maxDepth - m.depth) m.env none free i scope _
    found flat m.unwritten
  obtain ⟨result, s, s', alike, after, after'⟩ := accept_of_ends ends
  intro inherited filled
  refine ⟨result, ?_, fun settled => Prod.ext result ?_⟩
  · rw [show inherited.2 = m.resume s from after, show filled.2 = m.resume s' from after']
    simp only [resume, alike.writes, alike.host]
  · rw [show inherited.2 = m.resume s from after, show filled.2 = m.resume s' from after']
    simp only [resume, alike.writes, alike.host, alike.requests settled]

end InPlace

/-- A page with a title and entries, each of which is marked in its own way. -/
def journal : Template :=
  ⟨some "journal", "", [.block ⟨"title", [.text "Journal"]⟩, .text ":",
    .sect (.ofChildren "entries" false
      [.text " ", .block ⟨"entry", [.block ⟨"mark", [.text "- "]⟩, .interpolation "." true]⟩])]⟩

/-- Each entry in parentheses and in itself, under a mark that does not occur there. -/
def parentheses : OverrideScope :=
  [⟨"entry", [.text "(", .block ⟨"entry", [.interpolation "." true]⟩, .text ")"]⟩,
    ⟨"mark", [.text "+ "]⟩, ⟨"entry", [.text "hidden"]⟩]

theorem journal_partialFree : Node.Everywhere Node.PartialFree journal.nodes := by
  simp [journal, Node.everywhere_cons, Node.everywhere_nil, Node.parts, Node.PartialFree,
    Section.ofChildren]

/-- The title stays, and no override resolves to itself. -/
theorem InPlace.accept_journal :
    let setup : Setup ScriptedState := ⟨.standard, fun _ => none, scriptedHost [] false⟩
    let data := Value.map [("entries", .list [.str "a", .str "b"])]
    let m := start data none .start
    let inherited := m.accept setup [.parent ⟨"journal", "", some journal⟩ parentheses]
    inherited.1 = .ok () ∧ inherited.2.output = "Journal: (a) (b)" ∧
      inherited = m.accept setup [.inclusion ⟨"journal", "", some (journal.fill parentheses)⟩] := by
  intro setup data m inherited
  have free : data.LambdaFree := by
    simp [data, Value.LambdaFree, Value.LambdaFreeEntries, Value.LambdaFreeItems]
  obtain ⟨-, -, same⟩ := accept_filled setup m rfl (.ofRoot free) ⟨"journal", "", some journal⟩
    parentheses rfl journal_partialFree
  refine ⟨?_, ?_, same rfl⟩
  · decide +kernel
  · decide +kernel

end Mustache
