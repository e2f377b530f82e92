import Mustache.Proofs.Reading.Indents
import Mustache.Proofs.Site

/-! The nodes that a tree supplies: its own, and those of the templates that its partials lead to. -/
namespace Mustache

/-- The nodes that a tree and its partials are made of, the content of overrides among them. -/
inductive Loader.Supplies (loader : Loader) (root : List Node) : Node → Prop
  | root {n : Node} (mem : n ∈ root) : Supplies loader root n
  | part {n m : Node} (outer : Supplies loader root n) (mem : m ∈ n.parts) : Supplies loader root m
  | base {i : Inclusion} {scope : List Block} (outer : Supplies loader root (.parent i scope)) :
    Supplies loader root (.inclusion i)
  | body {n : Node} {i : Inclusion} {t : Template} (outer : Supplies loader root (.inclusion i))
    (target : loader.target? i = some t) (mem : n ∈ t.nodes) : Supplies loader root n

namespace Loader.Supplies
variable {loader : Loader} {root : List Node} {n : Node} {i : Inclusion} {t : Template}

/-- What holds everywhere in a tree and in the templates of its partials holds of all it supplies. -/
theorem everywhere {p : Node → Prop} (h : loader.Supplies root n)
    (base : ∀ {i scope}, p (.parent i scope) → p (.inclusion i))
    (body : ∀ {i t}, p (.inclusion i) → loader.target? i = some t → Node.Everywhere p t.nodes)
    (top : Node.Everywhere p root) : Node.Everywhere p [n] := by
  have here {n : Node} : Node.Occurs [n] n := .top (List.mem_singleton_self n)
  induction h with
  | root mem => exact Node.everywhere_iff_forall.1 top _ mem
  | @part n m _ mem ih =>
    have inner : ∀ k ∈ [m], Node.Occurs [n] k :=
      fun k same => List.mem_singleton.1 same ▸ .part here mem
    exact fun k occurs => ih k (occurs.trans inner)
  | base _ ih =>
    exact Node.everywhere_cons.2 ⟨base (ih _ here), Node.everywhere_nil, Node.everywhere_nil⟩
  | body _ target mem ih => exact Node.everywhere_iff_forall.1 (body (ih _ here) target) _ mem

/-- Where there is no partial, the tree is all there is. -/
theorem partialFree (h : loader.Supplies root n) (free : Node.Everywhere Node.PartialFree root) :
    n.PartialFree :=
  h.everywhere False.elim False.elim free n (.top (List.mem_singleton_self n))

/-- A partial supplies itself and what its template does. -/
theorem of_inclusion (h : loader.Supplies [.inclusion i] n) (target : loader.target? i = some t) :
    n = .inclusion i ∨ loader.Supplies t.nodes n := by
  induction h with
  | root mem => exact .inl (List.mem_singleton.1 mem)
  | part _ mem ih =>
    rcases ih with rfl | inside
    · cases mem
    · exact .inr (.part inside mem)
  | base _ ih =>
    rcases ih with same | inside
    · cases same
    · exact .inr (.base inside)
  | body _ found mem ih =>
    rcases ih with same | inside
    · obtain rfl := Node.inclusion.inj same
      obtain rfl := Option.some.inj (target.symm.trans found)
      exact .inr (.root mem)
    · exact .inr (.body inside found mem)

/-- What holds of the indents in a template, and of none at all, holds also of a partial that leads to
the template and has no indent. -/
theorem of_flush {p : String → Prop} (empty : p "") (target : loader.target? i = some t)
    (inside : ∀ inner, loader.Supplies t.nodes (.inclusion inner) → p inner.indent)
    (inner : Inclusion)
    (h : loader.Supplies [.inclusion { i with indent := "" }] (.inclusion inner)) :
    p inner.indent := by
  rcases of_inclusion h target with same | further_in
  · obtain rfl := Node.inclusion.inj same
    exact empty
  · exact inside inner further_in

/-- The partials of parsed templates have blank indents. -/
theorem blank (h : loader.Supplies t.nodes (.inclusion i)) (parsed : t.Parsed)
    (loads : ∀ name u, loader name = some u → u.Parsed) : i.indent.toList.all Text.isBlank := by
  have read {u : Template} (parsed : u.Parsed) :
      Node.Everywhere (fun n => n.Blank ∧ n.Unsettled) u.nodes :=
    fun n inside => ⟨parsed.blank n inside, parsed.unsettled n inside⟩
  have all : Node.Everywhere (fun n => n.Blank ∧ n.Unsettled) [.inclusion i] := by
    refine h.everywhere id (fun {i u} here target => ?_) (read parsed)
    have unsettled : i.target = none := here.2
    rw [Loader.target?, unsettled] at target
    exact read (loads i.name u target)
  exact (all _ (.top (List.mem_singleton_self _))).1

end Loader.Supplies

end Mustache
