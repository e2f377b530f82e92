import Mustache.Node

/-! The blocks that partials override, scope by scope. -/
namespace Mustache

/-- The blocks that one partial overrides, in the order of their declaration. -/
abbrev OverrideScope := List Block

/-- The first block declared under a name. -/
def OverrideScope.get? (scope : OverrideScope) (name : String) : Option Block :=
  scope.find? fun block => block.name = name

/-- The scopes in force, innermost first. -/
structure Overrides where
  scopes : List OverrideScope
  deriving Inhabited

namespace Overrides

def empty : Overrides := ⟨[]⟩

def push (o : Overrides) (scope : OverrideScope) : Overrides := ⟨scope :: o.scopes⟩

/-- Removes the innermost scope and gives it back. -/
def pop? (o : Overrides) : Option (OverrideScope × Overrides) :=
  match o.scopes with
  | [] => none
  | scope :: outer => some (scope, ⟨outer⟩)

def size (o : Overrides) : Nat := o.scopes.length

/-- Looks a name up, given the scopes innermost first: the block found, with the scopes that enclose
the one it was found in. -/
def find? (name : String) : List OverrideScope → Option (Block × List OverrideScope)
  | [] => none
  | scope :: outer =>
    match scope.get? name with
    | some block => some (block, outer)
    | none => find? name outer

/-- The override for a block, from the nearest scope that declares one, and the scopes that are left
in force inside of it: only those that enclose the declaring one. -/
def resolve? (o : Overrides) (name : String) : Option (Block × Overrides) :=
  (find? name o.scopes).map fun (block, outer) => (block, ⟨outer⟩)

/-- Keeps the outermost scopes up to `depth` of them, and gives back those taken away. -/
def detach (o : Overrides) (depth : Nat) : List OverrideScope × Overrides :=
  let count := o.size - depth
  (o.scopes.take count, ⟨o.scopes.drop count⟩)

/-- Puts scopes back that were taken away. -/
def restore (o : Overrides) (detached : List OverrideScope) : Overrides := ⟨detached ++ o.scopes⟩

theorem restore_detach (o : Overrides) (depth : Nat) :
    (o.detach depth).2.restore (o.detach depth).1 = o := by
  simp [detach, restore]

theorem find?_suffix {name : String} {scopes outer : List OverrideScope} {block : Block}
    (h : find? name scopes = some (block, outer)) :
    ∃ inner scope, scopes = inner ++ scope :: outer ∧ scope.get? name = some block ∧
      ∀ s ∈ inner, s.get? name = none := by
  induction scopes with
  | nil => simp [find?] at h
  | cons scope rest ih =>
    simp only [find?] at h
    split at h
    · rename_i b hb
      simp only [Option.some.injEq, Prod.mk.injEq] at h
      obtain ⟨rfl, rfl⟩ := h
      exact ⟨[], scope, rfl, hb, by simp⟩
    · rename_i hb
      obtain ⟨inner, s, rfl, hs, hin⟩ := ih h
      exact ⟨scope :: inner, s, rfl, hs, by simpa [hb] using hin⟩

/-- The scope that declares an override splits those in force: the newer ones do not declare it, the
older ones enclose it. -/
theorem scopes_of_resolve? {o enclosing : Overrides} {name : String} {block : Block}
    (h : o.resolve? name = some (block, enclosing)) :
    ∃ inner scope, o.scopes = inner ++ scope :: enclosing.scopes ∧
      scope.get? name = some block ∧ ∀ s ∈ inner, s.get? name = none := by
  simp only [resolve?, Option.map_eq_some_iff, Prod.mk.injEq, Prod.exists] at h
  obtain ⟨b, outer, hf, rfl, rfl⟩ := h
  exact find?_suffix hf

/-- An override runs with fewer scopes in force than were in force where it was resolved. -/
theorem size_of_resolve? {o enclosing : Overrides} {name : String} {block : Block}
    (h : o.resolve? name = some (block, enclosing)) : enclosing.size < o.size := by
  obtain ⟨inner, scope, hs, -, -⟩ := scopes_of_resolve? h
  simp only [size, hs, List.length_append, List.length_cons]
  omega

/-- What is in force inside an override is what is left when its scope and all newer ones are
detached. -/
theorem detach_of_resolve? {o enclosing : Overrides} {name : String} {block : Block}
    (h : o.resolve? name = some (block, enclosing)) : (o.detach enclosing.size).2 = enclosing := by
  obtain ⟨inner, scope, hs, -, -⟩ := scopes_of_resolve? h
  simp only [detach, size, hs, List.length_append, List.length_cons]
  have : inner.length + (enclosing.scopes.length + 1) - enclosing.scopes.length =
      (inner ++ [scope]).length := by
    simp only [List.length_append, List.length_cons, List.length_nil]
    omega
  have split : inner ++ scope :: enclosing.scopes = (inner ++ [scope]) ++ enclosing.scopes := by
    simp
  rw [this, split, List.drop_left]

end Overrides

/-- A property of every block that is declared in the scopes in force. -/
def Overrides.All (p : Block → Prop) (o : Overrides) : Prop := ∀ scope ∈ o.scopes, ∀ b ∈ scope, p b

namespace Overrides.All
variable {p : Block → Prop} {o : Overrides}

theorem empty : Overrides.empty.All p := fun _ mem => nomatch mem

theorem push {scope : OverrideScope} (h : o.All p) (hs : ∀ b ∈ scope, p b) :
    (o.push scope).All p := by
  intro other mem
  rcases List.mem_cons.1 mem with rfl | mem
  · exact hs
  · exact h other mem

/-- An override that is found has the property, and so has what is in force inside of it. -/
theorem of_resolve? {enclosing : Overrides} {name : String} {block : Block} (h : o.All p)
    (found : o.resolve? name = some (block, enclosing)) : p block ∧ enclosing.All p := by
  obtain ⟨inner, scope, hs, declared, -⟩ := scopes_of_resolve? found
  constructor
  · exact h scope (by simp [hs]) block (List.mem_of_find?_eq_some declared)
  · exact fun other mem => h other (by simp [hs, mem])

end Overrides.All

end Mustache
