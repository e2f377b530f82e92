import Mustache.Node

/-! Trees can be compared: two nodes are the same when all their parts are, sections with their
body ranges and delimiters, templates with their names and sources. -/
namespace Mustache

mutual

def Node.same : Node → Node → Bool
  | .text a, .text b => a == b
  | .interpolation m e, .interpolation n f => m == n && e == f
  | .sect a, .sect b => a.same b
  | .inclusion a, .inclusion b => a.same b
  | .parent a as, .parent b bs => a.same b && Block.sameAll as bs
  | .block a, .block b => a.same b
  | _, _ => false

def Section.same : Section → Section → Bool
  | ⟨m, v, x, as⟩, ⟨n, w, y, bs⟩ => m == n && v == w && x == y && Node.sameAll as bs

def Inclusion.same : Inclusion → Inclusion → Bool
  | ⟨m, i, s⟩, ⟨n, j, t⟩ => m == n && i == j && Template.sameTarget s t

def Block.same : Block → Block → Bool
  | ⟨m, as⟩, ⟨n, bs⟩ => m == n && Node.sameAll as bs

def Template.same : Template → Template → Bool
  | ⟨m, s, as⟩, ⟨n, t, bs⟩ => m == n && s == t && Node.sameAll as bs

def Template.sameTarget : Option Template → Option Template → Bool
  | none, none => true
  | some s, some t => s.same t
  | _, _ => false

def Node.sameAll : List Node → List Node → Bool
  | [], [] => true
  | a :: as, b :: bs => a.same b && Node.sameAll as bs
  | _, _ => false

def Block.sameAll : List Block → List Block → Bool
  | [], [] => true
  | a :: as, b :: bs => a.same b && Block.sameAll as bs
  | _, _ => false

end

mutual

theorem Node.same_iff (a b : Node) : a.same b = true ↔ a = b := by
  cases a <;> cases b <;> simp only [Node.same, reduceCtorEq, Bool.false_eq_true, iff_self,
    Node.text.injEq, Node.interpolation.injEq, Node.sect.injEq, Node.inclusion.injEq,
    Node.parent.injEq, Node.block.injEq, Bool.and_eq_true, beq_iff_eq]
  · exact Section.same_iff _ _
  · exact Inclusion.same_iff _ _
  · exact and_congr (Inclusion.same_iff _ _) (Block.sameAll_iff _ _)
  · exact Block.same_iff _ _

theorem Section.same_iff (a b : Section) : a.same b = true ↔ a = b := by
  obtain ⟨m, v, x, as⟩ := a
  obtain ⟨n, w, y, bs⟩ := b
  simp only [Section.same, Bool.and_eq_true, beq_iff_eq, Section.mk.injEq, and_assoc]
  rw [Node.sameAll_iff as bs]

theorem Inclusion.same_iff (a b : Inclusion) : a.same b = true ↔ a = b := by
  obtain ⟨m, i, s⟩ := a
  obtain ⟨n, j, t⟩ := b
  simp only [Inclusion.same, Bool.and_eq_true, beq_iff_eq, Inclusion.mk.injEq, and_assoc]
  rw [Template.sameTarget_iff s t]

theorem Block.same_iff (a b : Block) : a.same b = true ↔ a = b := by
  obtain ⟨m, as⟩ := a
  obtain ⟨n, bs⟩ := b
  simp only [Block.same, Bool.and_eq_true, beq_iff_eq, Block.mk.injEq]
  rw [Node.sameAll_iff as bs]

theorem Template.same_iff (a b : Template) : a.same b = true ↔ a = b := by
  obtain ⟨m, s, as⟩ := a
  obtain ⟨n, t, bs⟩ := b
  simp only [Template.same, Bool.and_eq_true, beq_iff_eq, Template.mk.injEq, and_assoc]
  rw [Node.sameAll_iff as bs]

theorem Template.sameTarget_iff (a b : Option Template) :
    Template.sameTarget a b = true ↔ a = b := by
  cases a <;> cases b <;> simp only [Template.sameTarget, reduceCtorEq, Bool.false_eq_true,
    iff_self, Option.some.injEq]
  exact Template.same_iff _ _

theorem Node.sameAll_iff (as bs : List Node) : Node.sameAll as bs = true ↔ as = bs := by
  cases as <;> cases bs <;> simp only [Node.sameAll, reduceCtorEq, Bool.false_eq_true, iff_self,
    List.cons.injEq, Bool.and_eq_true]
  exact and_congr (Node.same_iff _ _) (Node.sameAll_iff _ _)

theorem Block.sameAll_iff (as bs : List Block) : Block.sameAll as bs = true ↔ as = bs := by
  cases as <;> cases bs <;> simp only [Block.sameAll, reduceCtorEq, Bool.false_eq_true, iff_self,
    List.cons.injEq, Bool.and_eq_true]
  exact and_congr (Block.same_iff _ _) (Block.sameAll_iff _ _)

end

instance : DecidableEq Node := fun a b => decidable_of_iff _ (Node.same_iff a b)
instance : DecidableEq Block := fun a b => decidable_of_iff _ (Block.same_iff a b)
instance : DecidableEq Template := fun a b => decidable_of_iff _ (Template.same_iff a b)

end Mustache
