import Mathlib.Data.List.Forall2
import Mustache.Proofs.Site

/-! What two renders are given, side by side: contexts in which the same names mean the same, nodes
that differ at most further down, paths and settings of which one asks for no more than the other. -/
namespace Mustache
open List (Forall₂)

/-- Contexts in which `names` mean the same: nothing in both, or values that are related. Related
values are the same, or both are maps. What a lambda returns is not related to anything, so there
are none unless `lambdas` holds. -/
structure Context.Matching (names : String → Prop) (lambdas : Prop)
    (r : Context → Context → Prop) (v : Value → Value → Prop) : Prop where
  resolve {a b : Context} {name : String} (h : r a b) (hn : names name) :
    Option.Rel v (a.resolve? name) (b.resolve? name)
  push {a b : Context} {x y : Value} (h : r a b) (hv : v x y) : r (a.push x) (b.push y)
  value {x y : Value} (h : v x y) : x = y ∨ ∃ es fs, x = .map es ∧ y = .map fs
  item {items : List Value} {item : Value} (h : v (.list items) (.list items))
    (mem : item ∈ items) : v item item
  lambda {l : Lambda} (h : v (.lambda l) (.lambda l)) : lambdas

namespace Context

/-- Every name means the same in the same context. -/
theorem matching_eq : Matching (fun _ => True) True (· = ·) (· = ·) where
  resolve {a b name} h _ := by
    rw [h]
    cases b.resolve? name with
    | none => exact .none
    | some x => exact .some rfl
  push h hv := by rw [h, hv]
  value h := .inl h
  item _ _ := rfl
  lambda _ := trivial

end Context

/-- A path leads itself, and a part of itself where cycles are lost. -/
def InclusionPath.Leads (lost : Error → Prop) (p q : InclusionPath) : Prop :=
  p = q ∨ q.names ⊆ p.names ∧ ∀ name path, lost (.inclusionCycle name path)

namespace InclusionPath.Leads
variable {lost : Error → Prop} {p q : InclusionPath}

theorem subset (h : p.Leads lost q) : q.names ⊆ p.names := by
  rcases h with rfl | ⟨sub, -⟩
  · exact List.Subset.refl _
  · exact sub

theorem enter (h : p.Leads lost q) (name : String) :
    (∃ p' q', p.enter name = .ok p' ∧ q.enter name = .ok q' ∧ p'.Leads lost q') ∨
      ∃ error, p.enter name = .error error ∧ (lost error ∨ q.enter name = .error error) := by
  cases entered : p.enter name with
  | error error =>
    refine .inr ⟨error, rfl, ?_⟩
    rcases h with rfl | ⟨-, cycles⟩
    · exact .inr entered
    · obtain ⟨-, rfl⟩ := enter_eq_error entered
      exact .inl (cycles _ _)
  | ok p' =>
    obtain ⟨new, names⟩ := enter_eq_ok entered
    rcases h with rfl | ⟨sub, cycles⟩
    · exact .inl ⟨p', p', rfl, entered, .inl rfl⟩
    · cases entered' : q.enter name with
      | error error => exact absurd (sub (enter_eq_error entered').1) new
      | ok q' =>
        refine .inl ⟨p', q', rfl, rfl, .inr ⟨?_, cycles⟩⟩
        rw [names, (enter_eq_ok entered').2]
        exact List.append_subset.2 ⟨List.subset_append_of_subset_left _ sub,
          List.subset_append_right _ _⟩

end InclusionPath.Leads

/-- Settings that ask for no more. -/
structure Config.Leads (lost : Error → Prop) (c c' : Config) : Prop where
  strict : c.strictVariables = c'.strictVariables ∨
    c'.strictVariables = false ∧ ∀ name, lost (.missingVariable name)
  inverted : c.invertedLambda = c'.invertedLambda ∨
    c.invertedLambda = .reject ∧ ∀ name, lost (.invertedLambda name)

theorem Config.leads_refl (lost : Error → Prop) (c : Config) : c.Leads lost c :=
  ⟨.inl rfl, .inl rfl⟩

/-- Levels that are left under settings: as many, or no fewer where going too deep is lost. -/
def Config.Levels (lost : Error → Prop) (c c' : Config) (room room' : Nat) : Prop :=
  room = room' ∧ c.maxDepth = c'.maxDepth ∨ room ≤ room' ∧ lost (.depthExceeded c.maxDepth)

namespace Config.Levels
variable {lost : Error → Prop} {c c' : Config} {room room' : Nat}

theorem succ_iff : Levels lost c c' (room + 1) (room' + 1) ↔ Levels lost c c' room room' := by
  simp [Levels]

theorem le (h : Levels lost c c' room room') : room ≤ room' :=
  h.elim (fun same => Nat.le_of_eq same.1) fun more => more.1

end Config.Levels

/-! Nodes that are the same but for the lists of nodes inside of them, which are related. All names
that they look up are among `names`. -/

structure Section.Congruent (names : String → Prop) (q : List Node → List Node → Prop)
    (s s' : Section) : Prop where
  known : names s.name
  name : s.name = s'.name
  inverted : s.inverted = s'.inverted
  text : s.body.text = s'.body.text
  delimiters : s.body.delimiters = s'.body.delimiters
  children : q s.children s'.children

structure Inclusion.Congruent (loader : Loader) (q : List Node → List Node → Prop)
    (i i' : Inclusion) : Prop where
  name : i.name = i'.name
  indent : i.indent = i'.indent
  target : Option.Rel (fun t t' => q t.nodes t'.nodes) i.target i'.target
  loaded {t : Template} (missing : i.target = none) (found : loader i.name = some t) :
    q t.nodes t.nodes

structure Block.Congruent (q : List Node → List Node → Prop) (b b' : Block) : Prop where
  name : b'.name = b.name
  children : q b.children b'.children

inductive Node.Congruent (loader : Loader) (names : String → Prop)
    (q : List Node → List Node → Prop) : Node → Node → Prop
  | text (text : String) : Congruent loader names q (.text text) (.text text)
  | interpolation {name : String} (known : names name) (escaped : Bool) :
    Congruent loader names q (.interpolation name escaped) (.interpolation name escaped)
  | sect {s s' : Section} (h : s.Congruent names q s') :
    Congruent loader names q (.sect s) (.sect s')
  | inclusion {i i' : Inclusion} (h : i.Congruent loader q i') :
    Congruent loader names q (.inclusion i) (.inclusion i')
  | parent {i i' : Inclusion} {scope scope' : List Block} (h : i.Congruent loader q i')
    (blocks : Forall₂ (Block.Congruent q) scope scope') :
    Congruent loader names q (.parent i scope) (.parent i' scope')
  | block {b b' : Block} (h : b.Congruent q b') :
    Congruent loader names q (.block b) (.block b')

/-- Surroundings with related frames and overrides under the same indent. -/
structure Env.Leads (lost : Error → Prop) (r : Context → Context → Prop)
    (q : List Node → List Node → Prop) (a b : Env) : Prop where
  context : r a.context b.context
  overrides : Forall₂ (Forall₂ (Block.Congruent q)) a.overrides.scopes b.overrides.scopes
  path : a.path.Leads lost b.path
  indent : a.indent = b.indent

section Reflexive
variable {loader : Loader} {q : List Node → List Node → Prop} (hq : ∀ nodes, q nodes nodes)
include hq

theorem Inclusion.congruent_refl (i : Inclusion) : i.Congruent loader q i where
  name := rfl
  indent := rfl
  target := by
    cases i.target with
    | none => exact .none
    | some t => exact .some (hq t.nodes)
  loaded {t} _ _ := hq t.nodes

theorem Block.congruent_refl (b : Block) : b.Congruent q b := ⟨rfl, hq b.children⟩

theorem Block.congruent_refl_forall (scope : List Block) :
    Forall₂ (Block.Congruent q) scope scope :=
  List.forall₂_same.2 fun b _ => b.congruent_refl hq

theorem Node.congruent_refl (n : Node) : n.Congruent loader (fun _ => True) q n := by
  cases n with
  | text text => exact .text text
  | interpolation name escaped => exact .interpolation trivial escaped
  | sect s => exact .sect ⟨trivial, rfl, rfl, rfl, rfl, hq s.children⟩
  | inclusion i => exact .inclusion (i.congruent_refl hq)
  | parent i scope => exact .parent (i.congruent_refl hq) (Block.congruent_refl_forall hq scope)
  | block b => exact .block (b.congruent_refl hq)

theorem Env.leads_refl (lost : Error → Prop) (env : Env) : env.Leads lost (· = ·) q env where
  context := rfl
  overrides := List.forall₂_same.2 fun scope _ => Block.congruent_refl_forall hq scope
  path := .inl rfl
  indent := rfl

end Reflexive

theorem Block.Congruent.eq {b b' : Block} (h : b.Congruent (· = ·) b') : b = b' := by
  cases b
  cases b'
  cases h.name
  cases h.children
  rfl

/-- Surroundings that lead each other to the same nodes are the same, unless cycles are lost. -/
theorem Env.Leads.eq {lost : Error → Prop} {a b : Env} (h : a.Leads lost (· = ·) (· = ·) b)
    (cycles : ∀ name path, ¬ lost (.inclusionCycle name path)) : a = b := by
  obtain ⟨context, ⟨scopes⟩, path, indent⟩ := a
  obtain ⟨context', ⟨scopes'⟩, path', indent'⟩ := b
  have overrides : Forall₂ (Forall₂ (· = ·)) scopes scopes' :=
    h.overrides.imp fun _ _ scope => scope.imp fun _ _ => Block.Congruent.eq
  simp only [List.forall₂_eq_eq_eq] at overrides
  obtain rfl : context = context' := h.context
  obtain rfl : path = path' := h.path.resolve_right fun shorter => cycles "" [] (shorter.2 _ _)
  obtain rfl : indent = indent' := h.indent
  rw [overrides]

namespace Overrides
variable {r : Block → Block → Prop}

theorem related_of_get? {scope scope' : OverrideScope} (h : Forall₂ r scope scope')
    (named : ∀ b b', r b b' → b'.name = b.name) (name : String) :
    Option.Rel r (scope.get? name) (scope'.get? name) := by
  induction h with
  | nil => exact .none
  | @cons b b' rest rest' first _ ih =>
    simp only [OverrideScope.get?, List.find?_cons, named b b' first]
    split
    · exact .some first
    · exact ih

theorem related_of_find? {scopes scopes' : List OverrideScope}
    (h : Forall₂ (Forall₂ r) scopes scopes')
    (named : ∀ b b', r b b' → b'.name = b.name) (name : String) :
    Option.Rel (fun x y => r x.1 y.1 ∧ Forall₂ (Forall₂ r) x.2 y.2)
      (find? name scopes) (find? name scopes') := by
  induction h with
  | nil => exact .none
  | @cons scope scope' outer outer' first others ih =>
    have found := related_of_get? first named name
    simp only [find?]
    generalize scope.get? name = x at found ⊢
    generalize scope'.get? name = y at found ⊢
    cases found with
    | none => exact ih
    | some related => exact .some ⟨related, others⟩

end Overrides

end Mustache
