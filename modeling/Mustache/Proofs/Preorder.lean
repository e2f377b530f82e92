import Mustache.Proofs.Tree

/-! The nodes of a tree in document order, and what is gathered from them in that order. -/
namespace Mustache.Node

theorem sizes_blocks (blocks : List Block) : sizes (blocks.map .block) = Block.sizes blocks := by
  induction blocks with
  | nil => rfl
  | cons b rest ih => rw [List.map_cons, sizes, ih, Block.sizes, size]

theorem sizes_parts_lt (n : Node) : sizes n.parts < n.size := by
  cases n with
  | text | interpolation | inclusion => simp [parts, sizes, size]
  | sect s =>
    rw [parts, size, Section.sizes_children]
    omega
  | block b =>
    rw [parts, size, Block.sizes_children]
    omega
  | parent i overrides =>
    rw [parts, sizes_blocks, size]
    omega

/-- All nodes of a tree, each in front of the nodes inside of it. -/
def preorder : List Node → List Node
  | [] => []
  | n :: rest => n :: (preorder n.parts ++ preorder rest)
termination_by nodes => sizes nodes
decreasing_by
  · have := sizes_parts_lt n
    simp only [sizes]
    omega
  · have := sizes_parts_lt n
    simp only [sizes]
    omega

theorem preorder_append (a b : List Node) : preorder (a ++ b) = preorder a ++ preorder b := by
  induction a with
  | nil => rw [preorder]; rfl
  | cons n rest ih =>
    rw [List.cons_append, preorder, preorder, ih, List.cons_append, List.append_assoc]

/-- A node is in the list exactly if it occurs in the tree. -/
theorem mem_preorder {nodes : List Node} {n : Node} : n ∈ preorder nodes ↔ Occurs nodes n := by
  induction nodes using preorder.induct with
  | case1 =>
    rw [preorder]
    constructor
    · exact fun mem => nomatch mem
    · intro h
      obtain ⟨_, mem, -⟩ := h.exists_mem
      cases mem
  | case2 m rest inside behind =>
    rw [preorder, List.mem_cons, List.mem_append, inside, behind]
    constructor
    · rintro (rfl | inner | later)
      · exact .top List.mem_cons_self
      · exact inner.of_parts.of_mem List.mem_cons_self
      · exact later.mono (List.subset_cons_self _ _)
    · intro h
      obtain ⟨k, mem, inner⟩ := h.exists_mem
      rcases List.mem_cons.1 mem with rfl | mem
      · exact inner.eq_or_part.imp_right .inl
      · exact .inr (.inr (inner.of_mem mem))

/-! What the nodes of a tree hold, put together in document order -/

section Gather
variable {α : Type} {f : Node → List α} {nodes : List Node}

/-- What is found at the nodes of a tree, in document order. -/
def gather (f : Node → List α) (nodes : List Node) : List α := (preorder nodes).flatMap f

@[simp] theorem gather_nil : gather f [] = [] := by
  rw [gather, preorder, List.flatMap_nil]

theorem gather_append (a b : List Node) : gather f (a ++ b) = gather f a ++ gather f b := by
  rw [gather, preorder_append, List.flatMap_append]
  rfl

theorem gather_cons (n : Node) (nodes : List Node) :
    gather f (n :: nodes) = f n ++ gather f n.parts ++ gather f nodes := by
  rw [gather, preorder, List.flatMap_cons, List.flatMap_append, ← List.append_assoc]
  rfl

theorem gather_reverse_cons (n : Node) (nodes : List Node) :
    gather f (n :: nodes).reverse = gather f nodes.reverse ++ (f n ++ gather f n.parts) := by
  rw [List.reverse_cons, gather_append, gather_cons, gather_nil, List.append_nil]

theorem mem_gather {x : α} : x ∈ gather f nodes ↔ ∃ n, Occurs nodes n ∧ x ∈ f n := by
  simp only [gather, List.mem_flatMap, mem_preorder]

theorem gather_sublist {a b : List Node} (h : a.Sublist b) :
    (gather f a).Sublist (gather f b) := by
  induction h with
  | slnil => exact .refl _
  | cons n _ ih =>
    rw [gather_cons]
    exact ih.trans (List.sublist_append_right _ _)
  | cons_cons n _ ih =>
    rw [gather_cons, gather_cons]
    exact ih.append_left _

end Gather

end Mustache.Node
