import Mustache.Proofs.Valid

/-! Rendering what has passed the check. The check follows every branch on the spot, while a render
puts the content of an override where a layout has its block. What the check says holds all the same
of the partials that are there, and of everything else as long as no override is placed. -/
namespace Mustache

/-- A node that is valid somewhere. -/
def Node.Vetted (loader : Loader) (n : Node) : Prop := ∃ room path, n.Valid loader room path

/-- What nodes lead to, through children, blocks and the templates of partials. -/
inductive Loader.Reaches (loader : Loader) (root : List Node) : Node → Prop
  | root {n : Node} (mem : n ∈ root) : Reaches loader root n
  | child {n : Node} {s : Section} (outer : Reaches loader root (.sect s))
    (mem : n ∈ s.children) : Reaches loader root n
  | content {n : Node} {b : Block} (outer : Reaches loader root (.block b))
    (mem : n ∈ b.children) : Reaches loader root n
  | body {n : Node} {i : Inclusion} {t : Template} (outer : Reaches loader root (.inclusion i))
    (target : loader.target? i = some t) (mem : n ∈ t.nodes) : Reaches loader root n

namespace Site
variable {loader : Loader} {room levels : Nat} {a b : Site}

/-- All nodes in force at a site are valid somewhere. -/
structure Vetted (loader : Loader) (site : Site) : Prop where
  nodes : ∀ n ∈ site.nodes, n.Vetted loader
  overrides : site.overrides.All fun b => ∀ n ∈ b.children, n.Vetted loader

theorem Vetted.of_inclusion {node : Node} {i : Inclusion} {inner : Overrides} {t : Template}
    {path : InclusionPath} (h : a.Vetted loader) (mem : node ∈ a.nodes)
    (includes : node.Includes a.overrides i inner) (target : loader.target? i = some t) :
    Vetted loader ⟨path, inner, t.nodes⟩ := by
  obtain ⟨room, outer, valid⟩ := h.nodes node mem
  constructor
  · cases valid.of_includes includes with
    | inclusion found enter nodes =>
      obtain rfl := Option.some.inj (found.symm.trans target)
      exact fun n hn => ⟨_, _, nodes n hn⟩
  · cases includes with
    | plain => exact h.overrides
    | parent _ scope =>
      cases valid with
      | parent unique overrides base =>
        refine h.overrides.push fun b hb => ?_
        cases overrides b hb with
        | block children => exact fun n hn => ⟨_, _, children n hn⟩

theorem Vetted.of_below (h : a.Vetted loader) (way : Below loader False a b) : b.Vetted loader := by
  cases way with
  | children mem =>
    obtain ⟨room, path, valid⟩ := h.nodes _ mem
    cases valid with
    | sect children => exact ⟨fun n hn => ⟨_, _, children n hn⟩, h.overrides⟩
  | returned allowed => exact allowed.elim
  | default mem =>
    obtain ⟨room, path, valid⟩ := h.nodes _ mem
    cases valid with
    | block children => exact ⟨fun n hn => ⟨_, _, children n hn⟩, h.overrides⟩
  | override mem found =>
    obtain ⟨nodes, overrides⟩ := h.overrides.of_resolve? found
    exact ⟨nodes, overrides⟩
  | inclusion mem includes target enter => exact h.of_inclusion mem includes target

theorem Vetted.of_descends (h : a.Vetted loader) (way : Descends loader False levels a b) :
    b.Vetted loader := by
  induction way with
  | here => exact h
  | down first rest ih => exact ih (h.of_below first)

theorem Vetted.no_missing (h : a.Vetted loader) (name : String) :
    ¬ a.Fault loader (.partialNotFound name) := by
  intro fault
  obtain ⟨node, i, inner, mem, includes, absent⟩ := fault.target_of_missing
  obtain ⟨room, path, valid⟩ := h.nodes node mem
  cases valid.of_includes includes with
  | inclusion target enter nodes =>
    rw [absent] at target
    cases target

/-- The nodes of a site are valid where they stand. -/
def Passes (loader : Loader) (room : Nat) (site : Site) : Prop :=
  ∀ n ∈ site.nodes, n.Valid loader room site.path

theorem Passes.no_cycle (h : a.Passes loader room) (name : String) (path : List String) :
    ¬ a.Fault loader (.inclusionCycle name path) := by
  intro fault
  obtain ⟨node, i, inner, mem, includes, closed⟩ := fault.enter_of_cycle
  cases (h node mem).of_includes includes with
  | inclusion target enter nodes =>
    rw [closed] at enter
    cases enter

/-- The content of an override, placed where the site has a block that resolves to it. -/
inductive Places (site : Site) : Site → Prop
  | intro {b override : Block} {enclosing : Overrides} (mem : .block b ∈ site.nodes)
    (found : site.overrides.resolve? b.name = some (override, enclosing)) :
    Places site ⟨site.path, enclosing, override.children⟩

/-- Apart from placed overrides a check goes down like a render. -/
theorem Passes.of_below (h : a.Passes loader room) (way : Below loader False a b) :
    a.Places b ∨ ∃ left, room = left + 1 ∧ b.Passes loader left := by
  cases way with
  | children mem =>
    cases h _ mem with
    | sect children => exact .inr ⟨_, rfl, children⟩
  | returned allowed => exact allowed.elim
  | default mem =>
    cases h _ mem with
    | block children => exact .inr ⟨_, rfl, children⟩
  | override mem found => exact .inl (.intro mem found)
  | inclusion mem includes target enter =>
    cases (h _ mem).of_includes includes with
    | inclusion found entered nodes =>
      obtain rfl := Option.some.inj (found.symm.trans target)
      obtain rfl := Except.ok.inj (entered.symm.trans enter)
      exact .inr ⟨_, rfl, nodes⟩

/-- Whatever way is taken, the levels suffice and no partial comes to stand inside of itself. -/
def Sound (loader : Loader) (room : Nat) (site : Site) : Prop :=
  ∀ levels inner, Descends loader False levels site inner →
    levels ≤ room ∧ ∀ name path, ¬ inner.Fault loader (.inclusionCycle name path)

/-- Every override that is placed on the way is sound in its place, with the levels left there. -/
def OverridesSound (loader : Loader) (room : Nat) (site : Site) : Prop :=
  ∀ levels inner placed, Descends loader False levels site inner → inner.Places placed →
    ∃ left, room = levels + 1 + left ∧ placed.Sound loader left

theorem OverridesSound.of_below (h : a.OverridesSound loader (room + 1))
    (way : Below loader False a b) : b.OverridesSound loader room := by
  intro levels inner placed rest places
  obtain ⟨left, split, sound⟩ := h (levels + 1) inner placed (.down way rest) places
  exact ⟨left, by omega, sound⟩

theorem sound_of_passes (h : a.Passes loader room) (placed : a.OverridesSound loader room) :
    a.Sound loader room := by
  intro levels inner way
  -- on the way the nodes stay valid where they stand, up to the first override that is placed
  induction way generalizing room with
  | here => exact ⟨Nat.zero_le _, h.no_cycle⟩
  | down first rest ih =>
    rcases h.of_below first with places | ⟨left, rfl, passes⟩
    · obtain ⟨left, rfl, sound⟩ := placed 0 _ _ (.here _) places
      obtain ⟨enough, acyclic⟩ := sound _ _ rest
      exact ⟨by omega, acyclic⟩
    · obtain ⟨enough, acyclic⟩ := ih passes (placed.of_below first)
      exact ⟨Nat.succ_le_succ enough, acyclic⟩

/-- No override is in force, and every node is among those that are reached. -/
structure Bare (loader : Loader) (root : List Node) (site : Site) : Prop where
  overrides : site.overrides = .empty
  nodes : ∀ n ∈ site.nodes, loader.Reaches root n

theorem Bare.not_places {root : List Node} (h : a.Bare loader root) : ¬ a.Places b := by
  intro places
  cases places with
  | intro mem found =>
    rw [h.overrides] at found
    cases found

theorem Bare.of_below {root : List Node} (h : a.Bare loader root)
    (plain : ∀ i scope, ¬ loader.Reaches root (.parent i scope)) (way : Below loader False a b) :
    b.Bare loader root := by
  cases way with
  | children mem => exact ⟨h.overrides, fun n hn => .child (h.nodes _ mem) hn⟩
  | returned allowed => exact allowed.elim
  | default mem => exact ⟨h.overrides, fun n hn => .content (h.nodes _ mem) hn⟩
  | override mem found => exact absurd (.intro mem found) h.not_places
  | inclusion mem includes target enter =>
    cases includes with
    | plain => exact ⟨h.overrides, fun n hn => .body (h.nodes _ mem) target hn⟩
    | parent i scope => exact absurd (h.nodes _ mem) (plain _ scope)

theorem Bare.overridesSound {root : List Node} (h : a.Bare loader root)
    (plain : ∀ i scope, ¬ loader.Reaches root (.parent i scope)) :
    a.OverridesSound loader room := by
  intro levels inner placed way places
  have bare : inner.Bare loader root := by
    clear places
    induction way with
    | here => exact h
    | down first rest ih => exact ih (h.of_below plain first)
  exact absurd places bare.not_places

end Site

/-- A render of data without lambdas that fails on a sound site fails on account of the data, of the
host or of a partial that is not there. -/
theorem Site.Sound.error_eq {σ : Type} {setup : Setup σ} {room : Nat} {start : Site} {error : Error}
    (h : start.Sound setup.loader room)
    (cause : Cause setup Value.LambdaFree False room start error) :
    setup.Refuses Value.LambdaFree error ∨ ∃ name, error = .partialNotFound name := by
  cases cause with
  | data refused => exact .inl refused
  | site within way fault =>
    rcases fault.error_eq with ⟨name, rfl⟩ | ⟨name, entered, rfl⟩
    · exact .inr ⟨name, rfl⟩
    · exact absurd fault ((h _ _ way).2 _ _)
  | depth way =>
    have := (h _ _ way).1
    omega

theorem Setup.Refuses.of_lambdaFree {σ : Type} {setup : Setup σ} {error : Error}
    (h : setup.Refuses Value.LambdaFree error) :
    (∃ tag kind, error = .conversion tag kind) ∨
      (setup.config.strictVariables = true ∧ ∃ tag, error = .missingVariable tag) ∨
      (error = .cancelled ∧ ∃ state, setup.host.cancelled state = true) := by
  have no_lambda (l : ∃ l : Lambda, (Value.lambda l).LambdaFree) : False := by
    obtain ⟨l, free⟩ := l
    exact Value.closed_lambdaFree.lambda free
  cases error with
  | conversion name found => exact .inl ⟨name, found, rfl⟩
  | missingVariable name => exact .inr (.inl ⟨h, name, rfl⟩)
  | cancelled => exact .inr (.inr ⟨rfl, h⟩)
  | lambdaFailed | invertedLambda | parse => exact (no_lambda h).elim
  | templateExists | missingTemplate | partialNotFound | inclusionCycle | depthExceeded
  | duplicateBlock => exact h.elim

/-- A host that never asks for cancellation. -/
def Host.silent : Host Unit := ⟨fun _ _ state => (.ok "", state), fun _ => false⟩

namespace Engine
variable {σ : Type} {e : Engine} {name : String} {t : Template}

theorem passes_of_validate (found : e.get? name = some t) (valid : e.validate name = .ok ()) :
    (site name t).Passes e.templates.load e.config.maxDepth := by
  obtain ⟨other, same, nodes⟩ := valid_of_validate valid
  obtain rfl := Option.some.inj (same.symm.trans found)
  exact nodes

theorem vetted_of_validate (found : e.get? name = some t) (valid : e.validate name = .ok ()) :
    (site name t).Vetted e.templates.load :=
  ⟨fun n hn => ⟨_, _, passes_of_validate found valid n hn⟩, Overrides.All.empty⟩

theorem partials_of_validate (found : e.get? name = some t) (valid : e.validate name = .ok ())
    {host : Host σ} {data : Value} {state : σ} (free : data.LambdaFree) (missing : String) :
    (e.render host name data state).result ≠ .error (.partialNotFound missing) := by
  intro failed
  cases cause_of_render found Value.closed_lambdaFree free failed with
  | data refused => exact refused
  | site within way fault =>
    exact ((vetted_of_validate found valid).of_descends way).no_missing missing fault

/-- What passes the check never lacks a partial. Where no partial with overrides is reached, nothing
but the data can make it fail, or the host. -/
theorem render_of_validate (valid : e.validate name = .ok ()) (host : Host σ) (data : Value)
    (state : σ) (free : data.LambdaFree) :
    (∀ missing, (e.render host name data state).result ≠ .error (.partialNotFound missing)) ∧
      ((∀ t i scope, e.get? name = some t →
          ¬ e.templates.load.Reaches t.nodes (.parent i scope)) →
        ∀ error, (e.render host name data state).result = .error error →
          (∃ tag kind, error = .conversion tag kind) ∨
            (e.config.strictVariables = true ∧ ∃ tag, error = .missingVariable tag) ∨
            (error = .cancelled ∧ ∃ later, host.cancelled later = true)) := by
  obtain ⟨t, found, -⟩ := valid_of_validate valid
  refine ⟨partials_of_validate found valid free, fun plain error failed => ?_⟩
  have bare : (site name t).Bare e.templates.load t.nodes := ⟨rfl, fun n hn => .root hn⟩
  have sound : (site name t).Sound e.templates.load e.config.maxDepth :=
    Site.sound_of_passes (passes_of_validate found valid)
      (bare.overridesSound fun i scope => plain t i scope found)
  rcases sound.error_eq (cause_of_render found Value.closed_lambdaFree free failed) with
    refused | ⟨missing, rfl⟩
  · exact refused.of_lambdaFree
  · exact absurd failed (partials_of_validate found valid free missing)

/-- A page that renders a partial for every item of a list. -/
def listing : Engine :=
  ⟨[("item", ⟨some "item", "", [.interpolation "." true]⟩),
    ("page", ⟨some "page", "", [.sect (.ofChildren "items" false [.inclusion (.named "item")])]⟩)],
    .standard⟩

theorem listing_reaches {n : Node} (h : listing.templates.load.Reaches
      [.sect (.ofChildren "items" false [.inclusion (.named "item")])] n) :
    n = .sect (.ofChildren "items" false [.inclusion (.named "item")]) ∨
      n = .inclusion (.named "item") ∨ n = .interpolation "." true := by
  induction h with
  | root mem => exact .inl (List.mem_singleton.1 mem)
  | child outer mem ih =>
    rcases ih with h | h | h
    · obtain rfl := Node.sect.inj h
      exact .inr (.inl (List.mem_singleton.1 mem))
    · cases h
    · cases h
  | content outer mem ih => rcases ih with h | h | h <;> cases h
  | @body n i t outer target mem ih =>
    rcases ih with h | h | h
    · cases h
    · obtain rfl := Node.inclusion.inj h
      have found : listing.templates.load.target? (.named "item") =
        some ⟨some "item", "", [.interpolation "." true]⟩ := by rfl
      obtain rfl := Option.some.inj (found.symm.trans target)
      exact .inr (.inr (List.mem_singleton.1 mem))
    · cases h

theorem render_listing : listing.validate "page" = .ok () ∧
    ∀ error, (listing.render Host.silent "page" (.map [("items", .list [.null])]) ()).result =
      .error error → ∃ tag kind, error = .conversion tag kind := by
  have valid : listing.validate "page" = .ok () := by rfl
  have free : (Value.map [("items", .list [.null])]).LambdaFree := by
    simp [Value.LambdaFree, Value.LambdaFreeEntries, Value.LambdaFreeItems]
  obtain ⟨-, plain⟩ := render_of_validate valid Host.silent _ () free
  refine ⟨valid, fun error failed => ?_⟩
  have flat (t : Template) (i : Inclusion) (scope : List Block)
      (found : listing.get? "page" = some t) :
      ¬ listing.templates.load.Reaches t.nodes (.parent i scope) := by
    obtain rfl := Option.some.inj found
    intro reached
    rcases listing_reaches reached with h | h | h <;> cases h
  rcases plain flat error failed with conversion | ⟨strict, -⟩ | ⟨-, later, raised⟩
  · exact conversion
  · cases strict
  · cases raised

end Engine

end Mustache
