import Mustache.Proofs.Render.Sections
import Mustache.Proofs.Render.Twins

/-! Conditions. A section over a truthy boolean, number or text puts a frame on the context that has no
members. It is the top frame, but no name other than the dot is found in it, and so a body that never asks
for the dot is rendered as it would be without the section. -/
namespace Mustache
open List (Forall₂)

theorem Value.get?_eq_none {v : Value} (h : v.kind ≠ .map) (key : String) : v.get? key = none := by
  cases v with
  | map entries => exact absurd rfl h
  | _ => rfl

namespace Context

/-- The second stack is the first one but for a frame that it lacks. The root is never that frame. -/
inductive Without (frame : Value) : Context → Context → Prop
  | intro (root : Value) (above below : List Value) :
    Without frame ⟨root, above ++ frame :: below⟩ ⟨root, above ++ below⟩

namespace Without
variable {frame : Value} {a b : Context}

theorem push (h : Without frame a b) (x : Value) : Without frame (a.push x) (b.push x) := by
  cases h with
  | intro root above below => exact .intro root (x :: above) below

/-- A frame without members is passed over, wherever it lies. -/
theorem resolve?_eq (h : Without frame a b) (bare : ∀ key, frame.get? key = none) {name : String}
    (named : name ≠ ".") : a.resolve? name = b.resolve? name := by
  cases h with
  | intro root above below =>
    simp only [resolve?, if_neg named, frames, List.append_assoc, List.cons_append,
      List.findSome?_append, List.findSome?_cons, bare]

end Without

/-- Every name but the dot means the same with the frame and without it. -/
theorem matching_without {frame : Value} (bare : ∀ key, frame.get? key = none) :
    Matching (· ≠ ".") False (fun a b => Without frame a b ∧ b.All Value.LambdaFree)
      fun x y => x = y ∧ x.LambdaFree where
  resolve := by
    rintro a b name ⟨without, free⟩ named
    rw [without.resolve?_eq bare named]
    exact Render.found_of_all Value.closed_lambdaFree free name
  push := by
    rintro a b x _ ⟨without, free⟩ ⟨rfl, hx⟩
    exact ⟨without.push x, free.push hx⟩
  value related := .inl related.1
  item related mem := ⟨rfl, related.2.of_mem mem⟩
  lambda related := Value.closed_lambdaFree.lambda related.2

end Context

/-- A node that looks up the top frame itself. -/
def Node.AsksForTop : Node → Prop
  | .interpolation name _ => name = "."
  | .sect s => s.name = "."
  | .text _ | .inclusion _ | .parent _ _ | .block _ => False

/-- The same node, supplied by a tree. -/
def Loader.Shares (loader : Loader) (root : List Node) (n n' : Node) : Prop :=
  n' = n ∧ loader.Supplies root n

namespace Loader
variable {loader : Loader} {root : List Node}

theorem shares_forall {nodes : List Node} (supplied : ∀ n ∈ nodes, loader.Supplies root n) :
    Forall₂ (loader.Shares root) nodes nodes :=
  List.forall₂_same.2 fun n mem => ⟨rfl, supplied n mem⟩

/-- One case for each kind of node. -/
theorem matching_shares (undotted : ∀ n, loader.Supplies root n → ¬ n.AsksForTop) :
    Node.Matching loader (· ≠ ".") False (loader.Shares root) where
  text h := h.1
  interpolation h := ⟨h.1, undotted _ h.2⟩
  sect {s n} h := ⟨s, h.1, undotted _ h.2, rfl, rfl, rfl, rfl, shares_forall fun _ mem => .part h.2 mem⟩
  inclusion h := ⟨h.1, fun _ target => shares_forall fun _ mem => .body h.2 target mem⟩
  parent {i scope n} h := by
    have overrides (b : Block) (mem : b ∈ scope) : loader.Supplies root (.block b) :=
      .part h.2 (List.mem_map_of_mem mem)
    exact ⟨scope, h.1, ⟨rfl, .base h.2⟩, List.forall₂_same.2 fun b mem => ⟨rfl, overrides b mem⟩⟩
  block {b n} h := ⟨b, h.1, rfl, shares_forall fun _ mem => .part h.2 mem⟩
  returned allowed := allowed.elim

end Loader

namespace Render
variable {σ : Type}

/-- Where the first has come to its end, the second has come to the same one. -/
theorem Ends.eq_of_ok {α : Type} {lost : Error → Prop}
    {first second : EStateM.Result Error (RenderState σ) α} {a : α}
    (h : Ends (· = ·) lost first second) (ok : outcome first = .ok a) : second = first := by
  rcases h.eq_or_lost with same | ⟨error, failed, -⟩
  · exact same
  · cases ok.symm.trans failed

/-- Above a frame without members the nodes lead themselves without it: they ask for nothing that is in
the frame, and have a level more. -/
theorem leads_without {setup : Setup σ} {env : Env} {frame : Value} {nodes : List Node}
    (bare : ∀ key, frame.get? key = none) (free : env.context.All Value.LambdaFree)
    (undotted : ∀ n, setup.loader.Supplies (nodes ++ env.overrides.blocks) n → ¬ n.AsksForTop)
    (room : Nat) :
    Leads (· = ·) (fun _ => True) (descend setup room (env.pushFrame frame) nodes)
      (descend setup (room + 1) env nodes) := by
  have supplied : ∀ n ∈ nodes, setup.loader.Supplies (nodes ++ env.overrides.blocks) n :=
    fun n mem => .root (List.mem_append_left _ mem)
  have overrides : Forall₂ (Forall₂ (Block.Related (setup.loader.Shares
      (nodes ++ env.overrides.blocks)))) env.overrides.scopes env.overrides.scopes := by
    refine List.forall₂_same.2 fun scope there => List.forall₂_same.2 fun b mem => ⟨rfl, .root ?_⟩
    exact List.mem_append_right nodes (Overrides.mem_blocks there mem)
  have twin : (env.pushFrame frame).Twin
      (fun a b => Context.Without frame a b ∧ b.All Value.LambdaFree)
      (setup.loader.Shares (nodes ++ env.overrides.blocks)) env :=
    ⟨⟨.intro env.context.root [] env.context.inner, free⟩, overrides, rfl, rfl⟩
  exact leads_twin (Context.matching_without bare) (Loader.matching_shares undotted)
    (.inr ⟨Nat.le_succ room, trivial⟩) twin (Loader.shares_forall supplied)

end Render

namespace InPlace
variable {σ : Type}

/-- A condition does not change what it guards. If an upright section over a truthy boolean, number or
text succeeds, then its children succeed also where the section stands, and both leave the renderer in the
same state, with the same text added. The data have no lambdas, and nothing that the render can come to
asks for the dot: neither the children nor the overrides in force, nor the templates that these lead to. -/
theorem accept_condition (setup : Setup σ) (m : InPlace σ) (free : m.context.All Value.LambdaFree)
    {s : Section} (upright : s.inverted = false) {v : Value}
    (found : m.context.resolve? s.name = some v) (truthy : v.shape = .scalar)
    (kind : v.kind ∈ [.boolean, .number, .string])
    (undotted : ∀ n, setup.loader.Supplies (s.children ++ m.overrides.blocks) n → ¬ n.AsksForTop) :
    let inside := m.accept setup [.sect s]
    let direct := m.accept setup s.children
    inside.1 = .ok () → direct.1 = .ok () ∧ direct.2 = inside.2 ∧
      ∃ added, inside.2.output = m.output ++ added ∧ direct.2.output = m.output ++ added := by
  intro inside direct ok
  have active : setup.host.cancelled m.host = false := by
    by_contra flag
    rw [Bool.not_eq_false] at flag
    rw [show inside = _ from accept_of_cancelled flag _] at ok
    cases ok
  have bare (key : String) : v.get? key = none := by
    refine Value.get?_eq_none (fun map => ?_) key
    rw [map] at kind
    revert kind
    decide
  have below : inside = m.behind (Render.descend setup (setup.config.maxDepth - m.depth)
      (m.env.pushFrame v) s.children m.unwritten) :=
    (accept_scalar active upright found truthy).trans (acceptBelow_eq_behind setup m _ s.children)
  have here : direct = m.behind (Render.descend setup (setup.config.maxDepth - m.depth + 1) m.env
      s.children m.unwritten) := accept_eq_behind setup m s.children
  rw [below] at ok
  have same : direct = inside := by
    rw [here, below, ((Render.leads_without bare free undotted _).ends rfl).eq_of_ok ok]
  have added : ∃ added, inside.2.output = m.output ++ added := by
    rw [below]
    exact m.page.after_grows _
  rw [same]
  obtain ⟨added, grows⟩ := added
  exact ⟨below ▸ ok, rfl, added, grows, grows⟩

/-- A badge that shows a name. -/
def badges : Catalog := [("badge", .ofNodes [.text " ", .interpolation "name" false])]

theorem badges_undotted {root : List Node}
    (top : Node.Everywhere (fun n => ¬ n.AsksForTop ∧ n.Unsettled) root) {n : Node}
    (h : badges.load.Supplies root n) : ¬ n.AsksForTop := by
  have all : Node.Everywhere (fun n => ¬ n.AsksForTop ∧ n.Unsettled) [n] := by
    refine h.everywhere id (fun {i t} here target => ?_) top
    rw [Loader.target?, here.2] at target
    obtain ⟨-, rfl⟩ : "badge" = i.name ∧ Template.ofNodes _ = t := by
      simpa [badges, Catalog.load, Entries.get?] using target
    simp [Template.ofNodes, Node.everywhere_cons, Node.everywhere_nil, Node.parts, Node.AsksForTop,
      Node.Unsettled]
  exact (all n (.top (List.mem_singleton_self n))).1

/-- A member's badge below a title that is overridden, with the condition and without it. -/
theorem accept_badge :
    let setup : Setup ScriptedState := ⟨.standard, badges.load, scriptedHost [] true⟩
    let data := Value.map [("member", .bool true), ("name", .str "Ada")]
    let m : InPlace ScriptedState :=
      { start data (some "page") .start with overrides := .push .empty [⟨"title", [.text "Dr"]⟩] }
    let s : Section :=
      ⟨"member", false, .absent, [.block ⟨"title", [.text "Hi"]⟩, .inclusion (.named "badge")]⟩
    let inside := m.accept setup [.sect s]
    let direct := m.accept setup s.children
    m.context.All Value.LambdaFree ∧ m.context.resolve? "member" = some (.bool true) ∧
      (∀ n, setup.loader.Supplies (s.children ++ m.overrides.blocks) n → ¬ n.AsksForTop) ∧
      inside.1 = .ok () ∧ inside.2.output = "Dr Ada" ∧ direct.1 = .ok () ∧ direct.2 = inside.2 := by
  intro setup data m s inside direct
  have free : m.context.All Value.LambdaFree :=
    .ofRoot (by simp [data, Value.LambdaFree, Value.LambdaFreeEntries])
  have found : m.context.resolve? "member" = some (.bool true) := by rfl
  have undotted : ∀ n, setup.loader.Supplies (s.children ++ m.overrides.blocks) n → ¬ n.AsksForTop := by
    refine fun n => badges_undotted ?_
    simp [s, m, Overrides.blocks, Overrides.push, Overrides.empty, Node.everywhere_cons,
      Node.everywhere_nil, Node.parts, Node.AsksForTop, Node.Unsettled, Inclusion.named]
  have ok : inside.1 = .ok () := by decide +kernel
  obtain ⟨succeeds, same, -⟩ :=
    accept_condition setup m free rfl found (by simp [Value.shape]) (by decide) undotted ok
  exact ⟨free, found, undotted, ok, by decide +kernel, succeeds, same⟩

end InPlace
end Mustache
