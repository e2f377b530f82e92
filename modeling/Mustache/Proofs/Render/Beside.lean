import Mustache.Proofs.Render.Tandem
import Mustache.Proofs.Supply

/-! One tree under two indents. The nodes that a render comes to are all supplied by the tree and by
the templates that it includes. If what these nodes write keeps a relation between the states, and
the data have no lambdas, then the render under the one indent leads the render under the other. -/
namespace Mustache
open List (Forall₂)

theorem Value.Closed.kin {p : Value → Prop} {lambdas : Prop} (closed : Closed p lambdas) :
    Kin lambdas fun x y => x = y ∧ p x :=
  ⟨fun h => .inl h.1, fun h mem => ⟨rfl, closed.item h.2 mem⟩, fun h => closed.lambda h.2⟩

/-- All blocks of the scopes in force. -/
def Overrides.blocks (o : Overrides) : List Node := o.scopes.flatten.map .block

theorem Overrides.mem_blocks {o : Overrides} {scope : OverrideScope} {b : Block}
    (there : scope ∈ o.scopes) (mem : b ∈ scope) : .block b ∈ o.blocks :=
  List.mem_map_of_mem (List.mem_flatten_of_mem there mem)

section Supply
variable (loader : Loader) (root : List Node) (p : Value → Prop)

/-- Surroundings over data with a property, in which all overrides are supplied by a tree. -/
structure Env.Supplied (env : Env) : Prop where
  context : env.context.All p
  overrides : env.overrides.All fun b => ∀ n ∈ b.children, loader.Supplies root n

/-- The same nodes, supplied by a tree, in surroundings that differ at most in the indent. -/
inductive Render.Beside (indents : String → String → Prop) : Render.Places
  | intro {env : Env} {indent : String} {nodes : List Node}
    (surroundings : env.Supplied loader root p)
    (supplied : ∀ n ∈ nodes, loader.Supplies root n) (between : indents env.indent indent) :
    Beside indents env nodes { env with indent } nodes

end Supply

namespace Env.Supplied
variable {loader : Loader} {root : List Node} {p : Value → Prop} {env : Env}

/-- The overrides in force supply their content in addition to the nodes. -/
theorem of_blocks {nodes : List Node} (context : env.context.All p) :
    env.Supplied loader (nodes ++ env.overrides.blocks) p := by
  refine ⟨context, fun scope there b mem n inside => ?_⟩
  have declared : loader.Supplies (nodes ++ env.overrides.blocks) (.block b) :=
    .root (List.mem_append_right nodes (Overrides.mem_blocks there mem))
  exact .part declared inside

theorem pushFrame {x : Value} (h : env.Supplied loader root p) (hx : p x) :
    (env.pushFrame x).Supplied loader root p := ⟨h.context.push hx, h.overrides⟩

theorem pushScope {i : Inclusion} {scope : List Block} (h : env.Supplied loader root p)
    (supplied : loader.Supplies root (.parent i scope)) :
    Supplied loader root p { env with overrides := env.overrides.push scope } := by
  refine ⟨h.context, h.overrides.push fun b mem n hn => ?_⟩
  have block : loader.Supplies root (.block b) := .part supplied (List.mem_map_of_mem mem)
  exact .part block hn

theorem atContent {b : Block} (h : env.Supplied loader root p)
    (supplied : loader.Supplies root (.block b)) :
    (env.atContent b).Supplied loader root p ∧
      ∀ n ∈ (env.overrides.content b).1.children, loader.Supplies root n := by
  unfold Env.atContent Overrides.content
  cases found : env.overrides.resolve? b.name with
  | none => exact ⟨h, fun n mem => .part supplied mem⟩
  | some content =>
    obtain ⟨override, enclosing⟩ := content
    obtain ⟨children, outer⟩ := h.overrides.of_resolve? found
    exact ⟨⟨h.context, outer⟩, children⟩

end Env.Supplied

namespace Render
variable {σ : Type}

/-- What two renders of one tree have to keep under two indents: a relation between their states that
holds through every piece that the nodes of the tree write, and a relation between their indents that
holds inside of its partials. -/
structure Margins (setup : Setup σ) (root : List Node) (p : Value → Prop)
    (indents : String → String → Prop) (rel : Relations σ σ) : Prop where
  flag {i : String} {s s' : RenderState σ} (related : rel i s s') :
    setup.host.cancelled s.host = setup.host.cancelled s'.host
  loaded {i : String} {s s' : RenderState σ} (related : rel i s s') (name : String) :
    rel i { s with requests := .load name :: s.requests }
      { s' with requests := .load name :: s'.requests }
  behind {i inner : String} {s s' : RenderState σ} (related : rel (i ++ inner) s s') : rel i s s'
  text {i j text : String} (between : indents i j)
    (supplied : setup.loader.Supplies root (.text text)) :
    Keeps (rel i) (rel i) (.text i text) (.text j text)
  value {i j name text : String} {escaped : Bool} {x : Value} (between : indents i j)
    (supplied : setup.loader.Supplies root (.interpolation name escaped)) (holds : p x)
    (shows : x.text? = some text) :
    Keeps (rel i) (rel i) (.value i text (shown escaped text)) (.value j text (shown escaped text))
  opened {i j : String} {inner : Inclusion} (between : indents i j)
    (supplied : setup.loader.Supplies root (.inclusion inner)) (indented : inner.indent ≠ "") :
    Keeps (rel i) (rel (i ++ inner.indent)) .openLine .openLine
  inside {i j : String} {inner : Inclusion} (between : indents i j)
    (supplied : setup.loader.Supplies root (.inclusion inner)) :
    indents (i ++ inner.indent) (j ++ inner.indent)

theorem found_of_all {p : Value → Prop} {lambdas : Prop} (closed : Value.Closed p lambdas)
    {c : Context} (h : c.All p) (name : String) :
    Option.Rel (fun x y => x = y ∧ p x) (c.resolve? name) (c.resolve? name) := by
  cases found : c.resolve? name with
  | none => exact .none
  | some x => exact .some ⟨rfl, h.resolve? closed found⟩

variable {setup : Setup σ} {root : List Node} {p : Value → Prop}
  {indents : String → String → Prop} {rel : Relations σ σ}
  (margins : Margins setup root p indents rel) (closed : Value.Closed p False)

section Meeting
variable {env : Env} {indent : String} (h : env.Supplied setup.loader root p)
  (between : indents env.indent indent)
include margins h between

theorem beside_inclusion {i : Inclusion} (supplied : setup.loader.Supplies root (.inclusion i)) :
    i.Meets setup.loader (fun _ => False) rel (Beside setup.loader root p indents) env
      { env with indent } i := by
  refine .of_enters (.inl rfl) (margins.opened between supplied) fun target => ?_
  intro path path' entered entered' _
  obtain rfl := Except.ok.inj (entered.symm.trans entered')
  exact .intro ⟨h.context, h.overrides⟩ (fun _ mem => .body supplied target mem)
    (margins.inside between supplied)

include closed in
/-- One case for each kind of node. -/
theorem beside_node {n : Node} (supplied : setup.loader.Supplies root n) :
    n.Meets setup.loader False (fun _ => False) (fun x y => x = y ∧ p x) rel
      (Beside setup.loader root p indents) env { env with indent } n := by
  cases n with
  | text t => exact .text (margins.text between supplied)
  | interpolation name escaped =>
    refine .interpolation (found_of_all closed h.context name) (fun found shows => ?_) False.elim
    have holds := h.context.resolve? closed found
    rcases shows with shows | ⟨l, rfl⟩
    · exact margins.value between supplied holds shows
    · exact (closed.lambda holds).elim
  | sect s =>
    have children : ∀ n ∈ s.children, setup.loader.Supplies root n := fun n mem => .part supplied mem
    refine .sect ⟨rfl, rfl, found_of_all closed h.context s.name, .intro h children between, ?_,
      False.elim, False.elim⟩
    rintro x _ ⟨rfl, hx⟩
    exact .intro (h.pushFrame hx) children between
  | inclusion i => exact .inclusion (beside_inclusion margins h between supplied)
  | parent i scope =>
    exact .parent (beside_inclusion margins (h.pushScope supplied) between (.base supplied))
  | block b =>
    obtain ⟨content, children⟩ := h.atContent supplied
    exact .block (.intro content children between)

end Meeting

/-- By induction on the levels left. -/
theorem follows_beside (margins : Margins setup root p indents rel) (closed : Value.Closed p False)
    (room : Nat) :
    Deeper.Follows (fun _ => False) rel (Beside setup.loader root p indents) (descend setup room)
      (descend setup room) := by
  have tandem : Tandem False (fun _ => False) setup setup rel :=
    ⟨rfl, setup.config.leads_refl _, margins.flag, margins.loaded, margins.behind, False.elim⟩
  refine follows_descend tandem closed.kin (fun related => ?_) (.inl ⟨rfl, rfl⟩)
  cases related with
  | intro h supplied between =>
    exact List.forall₂_same.2 fun n mem => beside_node margins closed h between (supplied n mem)

end Render
end Mustache
