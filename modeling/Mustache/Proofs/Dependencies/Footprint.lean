import Mustache.Proofs.Dependencies.Covered
import Mustache.Proofs.Engine.Edits
import Mustache.Proofs.Render.Twins
import Mustache.Node.Equality
import Mustache.Scripted

/-! A render reads no more of its data than the dependencies of the template name: data that agree
under the first segments of those names render alike. -/
namespace Mustache
open List (Forall₂)

/-- Values that agree under some keys: the same value, or two maps. No lambda occurs in them. -/
inductive Value.Agree (keys : String → Prop) : Value → Value → Prop
  | same {value : Value} (free : value.LambdaFree) : Agree keys value value
  | maps {es fs : List (String × Value)} (free : (map es).LambdaFree) (free' : (map fs).LambdaFree)
    (under : ∀ key, keys key → Entries.get? key es = Entries.get? key fs) :
    Agree keys (map es) (map fs)

namespace Value.Agree
variable {keys : String → Prop} {x y : Value}

theorem lambdaFree (h : Agree keys x y) : x.LambdaFree := by
  cases h with
  | same free => exact free
  | maps free => exact free

theorem get?_eq (h : Agree keys x y) {key : String} (hk : keys key) : x.get? key = y.get? key := by
  cases h with
  | same => rfl
  | maps _ _ under => exact under key hk

theorem findSome?_eq {xs ys : List Value} (h : Forall₂ (Agree keys) xs ys) {key : String}
    (hk : keys key) : xs.findSome? (Value.get? key) = ys.findSome? (Value.get? key) := by
  induction h with
  | nil => rfl
  | cons first _ ih => rw [List.findSome?_cons, List.findSome?_cons, first.get?_eq hk, ih]

theorem all_left {xs ys : List Value} (h : Forall₂ (Agree keys) xs ys) :
    ∀ x ∈ xs, x.LambdaFree := by
  induction h with
  | nil => nofun
  | cons first _ ih => exact List.forall_mem_cons.2 ⟨first.lambdaFree, ih⟩

end Value.Agree

namespace Context
variable {keys : String → Prop} {a b : Context} {name : String}

/-- Contexts that agree frame by frame. -/
def Agree (keys : String → Prop) (a b : Context) : Prop :=
  Forall₂ (Value.Agree keys) a.frames b.frames

theorem frames_eq_cons (c : Context) : ∃ rest, c.frames = c.top :: rest := by
  unfold frames top
  cases c.inner <;> simp

theorem Agree.top (h : Agree keys a b) : Value.Agree keys a.top b.top := by
  obtain ⟨xs, ha⟩ := a.frames_eq_cons
  obtain ⟨ys, hb⟩ := b.frames_eq_cons
  rw [Agree, ha, hb] at h
  exact (List.forall₂_cons.1 h).1

theorem Agree.resolve? (h : Agree keys a b) (hk : keys (nameSegments name).1) :
    Option.Rel (Value.Agree keys) (a.resolve? name) (b.resolve? name) := by
  -- the dot is the top frame itself; any other name is looked up under its first segment
  by_cases dot : name = "."
  · subst dot
    exact .some h.top
  · have same : a.resolve? name = b.resolve? name := by
      simp only [Context.resolve?, if_neg dot, Value.Agree.findSome?_eq h hk]
    have free : a.All Value.LambdaFree := Value.Agree.all_left h
    cases found : a.resolve? name with
    | none =>
      rw [← same, found]
      exact .none
    | some value =>
      rw [← same, found]
      exact .some (.same (free.resolve? Value.closed_lambdaFree found))

/-- Where contexts agree under the first segments of names, these names mean the same in them. -/
theorem matching_agree {names : String → Prop}
    (h : ∀ name, names name → keys (nameSegments name).1) :
    Matching names False (Agree keys) (Value.Agree keys) where
  resolve agree known := agree.resolve? (h _ known)
  push {a b x y} agree frame := by
    rw [Agree, frames_push, frames_push]
    exact .cons frame agree
  value related := by
    cases related with
    | same => exact .inl rfl
    | maps => exact .inr ⟨_, _, rfl, rfl⟩
  item related mem := .same (related.lambdaFree.of_mem mem)
  lambda related := Value.closed_lambdaFree.lambda related.lambdaFree

end Context

namespace Engine
variable {e : Engine} {name : String} {t : Template} {d : Dependencies}

/-- An engine whose templates have all been read from sources. -/
inductive Filled : Engine → Prop
  | new (config : Config) : Filled (new config)
  | add {e e' : Engine} {name source : String} (before : Filled e)
    (ok : e.add name source = .ok e') : Filled e'
  | reload {e e' : Engine} {name source : String} (before : Filled e)
    (ok : e.reload name source = .ok e') : Filled e'

theorem Filled.put {source : String} (before : e.Filled) (parsed : Template.parse source = .ok t) :
    (e.put name t).Filled :=
  .reload before (by rw [Engine.reload, parsed])

/-- No partial of its templates is settled ahead of time. -/
def Unsettled (e : Engine) : Prop :=
  ∀ name t, Entries.get? name e.templates = some t → Node.Everywhere Node.Unsettled t.nodes

theorem Unsettled.reload {e' : Engine} {source : String} (h : e.Unsettled)
    (ok : e.reload name source = .ok e') : e'.Unsettled := by
  unfold Engine.reload at ok
  split at ok
  · rename_i t parsed
    obtain rfl := Except.ok.inj ok
    have read : Node.Everywhere Node.Unsettled t.nodes := Template.unsettled_of_parse parsed
    have before : e.Holds fun _ t => Node.Everywhere Node.Unsettled t.nodes := h
    exact before.put read
  · cases ok

theorem Filled.unsettled (h : e.Filled) : e.Unsettled := by
  induction h with
  | new config => exact fun _ _ found => nomatch found
  | @add e e' name source _ ok ih =>
    unfold Engine.add at ok
    split at ok
    · cases ok
    · exact ih.reload ok
  | reload _ ok ih => exact ih.reload ok

/-- What the dependencies of a registered template come from: a walk that has done with the nodes
of the template, and has followed every partial it met. -/
structure Walks (e : Engine) (name : String) (t : Template) (w : Collection.Walk) : Prop where
  nodes : ∀ n ∈ t.nodes, Collection.Walked w false n
  followed : ∀ visit ∈ w.visited, visit.1 = name ∨ Collection.Followed e.templates w visit

theorem walks_of_contains (unsettled : e.Unsettled) (registered : e.contains name = true) :
    ∃ t w, e.get? name = some t ∧ e.Walks name t w ∧ e.dependencies name = .ok w.found := by
  obtain ⟨t, found⟩ := Option.isSome_iff_exists.1 registered
  unfold dependencies
  rw [found]
  have agenda : Collection.Agenda.Unsettled (.ofNodes false t.nodes) := by
    have open_nodes := unsettled name t found
    rw [← List.append_nil (Collection.Agenda.ofNodes false t.nodes)]
    exact .ofNodes open_nodes nofun
  have done := Collection.completes_run
    (w := ⟨.empty, [(name, true), (name, false)], []⟩) unsettled agenda
  refine ⟨t, _, rfl, ⟨fun n hn => ?_, fun visit mem => ?_⟩, rfl⟩
  · exact done.agenda (false, n) (List.mem_map.2 ⟨n, hn, rfl⟩)
  · rcases done.followed visit mem with own | followed
    · left
      simp only [List.mem_cons, List.not_mem_nil, or_false] at own
      rcases own with rfl | rfl <;> rfl
    · exact .inr followed

/-- A name that a template looks up. -/
def LooksUp (d : Dependencies) (name : String) : Prop := name ∈ d.«variables» ∨ name ∈ d.sections

/-- The nodes that the walk is done with. -/
def Known (w : Collection.Walk) (n n' : Node) : Prop :=
  n = n' ∧ Node.Everywhere Node.Unsettled [n] ∧ ∃ inSection, Collection.Walked w inSection n

theorem Known.covers {w : Collection.Walk} {n n' : Node} (h : Known w n n') :
    Collection.Covers w true n := by
  obtain ⟨-, unsettled, inSection, walked⟩ := h
  exact ⟨unsettled, inSection, fun _ => rfl, walked⟩

theorem known_of_covers {w : Collection.Walk} {n : Node} (h : Collection.Covers w true n) :
    Known w n n := by
  obtain ⟨unsettled, inSection, -, walked⟩ := h
  exact ⟨rfl, unsettled, inSection, walked⟩

theorem known_forall {w : Collection.Walk} {nodes : List Node}
    (h : ∀ n ∈ nodes, Collection.Covers w true n) : Forall₂ (Known w) nodes nodes :=
  List.forall₂_same.2 fun n mem => known_of_covers (h n mem)

theorem ended_of_walks (unsettled : e.Unsettled) (walks : e.Walks name t w) :
    Collection.Ended e.templates [name] w where
  catalog found := unsettled _ _ found
  followed mem := (walks.followed _ mem).imp_left List.mem_singleton.2

/-- The nodes of the template itself are known. -/
theorem known_of_walks {w : Collection.Walk} (unsettled : e.Unsettled) (found : e.get? name = some t)
    (walks : e.Walks name t w) : Forall₂ (Known w) t.nodes t.nodes :=
  known_forall (Collection.covers_of_walked (unsettled name t found) (fun _ => rfl) walks.nodes)

/-- The templates of partials that the walk covers are known. -/
theorem known_of_target {w : Collection.Walk} (unsettled : e.Unsettled)
    (found : e.get? name = some t) (walks : e.Walks name t w) {i : Inclusion}
    (covered : Collection.Covers w true (.inclusion i)) {u : Template}
    (target : e.templates.load.target? i = some u) : Forall₂ (Known w) u.nodes u.nodes := by
  by_cases own : i.name ∈ [name]
  · -- the template itself is never followed, but its own nodes have been walked
    rw [Loader.target?, covered.unsettled, List.mem_singleton.1 own] at target
    obtain rfl := Option.some.inj (found.symm.trans target)
    exact known_of_walks unsettled found walks
  · have ended := ended_of_walks unsettled walks
    exact known_forall (covered.template ended (fun _ _ => rfl) own target)

/-- Everything that a render of the template can come to is known to the walk. -/
theorem matching_known {w : Collection.Walk} (unsettled : e.Unsettled)
    (found : e.get? name = some t) (walks : e.Walks name t w) :
    Node.Matching e.templates.load (LooksUp w.found) False (Known w) where
  text h := h.1.symm
  interpolation h := ⟨h.1.symm, .inl h.covers.recorded_variable.1⟩
  sect {s n} h := by
    obtain ⟨recorded, children⟩ := h.covers.sect
    exact ⟨s, h.1.symm, .inr recorded, rfl, rfl, rfl, rfl, known_forall children⟩
  inclusion h := ⟨h.1.symm, fun u target => known_of_target unsettled found walks h.covers target⟩
  parent {i scope n} h := by
    obtain ⟨base, overrides⟩ := h.covers.parent
    exact ⟨scope, h.1.symm, known_of_covers base,
      List.forall₂_same.2 fun b mem => known_of_covers (overrides b mem)⟩
  block {b n} h := ⟨b, h.1.symm, rfl, known_forall h.covers.block.2⟩
  returned allowed := allowed.elim

/-- A registered template has dependencies, and data that agree on the first segments of all names
that these list render alike. -/
theorem render_eq_of_agree (filled : e.Filled) (registered : e.contains name = true) :
    ∃ d, e.dependencies name = .ok d ∧
      ∀ {one other : List (String × Value)}, (Value.map one).LambdaFree →
        (Value.map other).LambdaFree →
        (∀ tag, tag ∈ d.«variables» ∨ tag ∈ d.sections →
          Entries.get? (nameSegments tag).1 one = Entries.get? (nameSegments tag).1 other) →
        ∀ {σ : Type} (host : Host σ) (state : σ),
          e.render host name (.map one) state = e.render host name (.map other) state := by
  obtain ⟨t, w, found, walks, known⟩ := walks_of_contains filled.unsettled registered
  refine ⟨w.found, known, fun {one other} free free' agree {σ} host state => ?_⟩
  let keys (key : String) : Prop := ∃ tag, LooksUp w.found tag ∧ (nameSegments tag).1 = key
  have contexts : Context.Matching (LooksUp w.found) False (Context.Agree keys)
      (Value.Agree keys) :=
    Context.matching_agree fun tag seen => ⟨tag, seen, rfl⟩
  have nodes : Node.Matching (e.setup host).loader (LooksUp w.found) False (Known w) :=
    matching_known filled.unsettled found walks
  have root : Context.Agree keys (.ofRoot (.map one)) (.ofRoot (.map other)) := by
    refine .cons (.maps free free' ?_) .nil
    rintro _ ⟨tag, seen, rfl⟩
    exact agree tag seen
  have twin : Env.Twin (Context.Agree keys) (Known w)
      { Env.ofData (.map one) with path := .rooted name }
      { Env.ofData (.map other) with path := .rooted name } := ⟨root, .nil, rfl, rfl⟩
  have top := known_of_walks filled.unsettled found walks
  unfold Engine.render
  rw [found]
  have same := Render.twin_visitAll contexts nodes e.config.maxDepth twin top
  exact Renderer.run_congr (congrFun same _)

/-- A page that names a user above a footer. -/
def page : Template :=
  let source :=
    "\x7b\x7b#user\x7d\x7d\x7b\x7bname\x7d\x7d\x7b\x7b/user\x7d\x7d\x7b\x7b>footer\x7d\x7d"
  ⟨none, source, [.sect ⟨"user", false, ⟨source, 9, 17, .standard⟩, [.interpolation "name" true]⟩,
    .inclusion (.named "footer")]⟩

def footer : Template := ⟨none, "\x7b\x7byear\x7d\x7d", [.interpolation "year" true]⟩

theorem render_page_beside_secret :
    let e := ((new .standard).put "footer" footer).put "page" page
    let user := ("user", Value.map [("name", .str "Ada")])
    e.Filled ∧ e.contains "page" = true ∧
      e.dependencies "page" =
        .ok ⟨["name", "year"], ["user"], ["footer"], [], [], ["user", "year"]⟩ ∧
      e.render (scriptedHost [] false) "page" (.map [user]) .start =
        e.render (scriptedHost [] false) "page" (.map [("secret", .int 7), user]) .start := by
  intro e user
  have filled : e.Filled := by
    have read_footer : Template.parse footer.source = .ok footer := by decide +kernel
    have read_page : Template.parse page.source = .ok page := by decide +kernel
    exact ((Filled.new .standard).put read_footer).put read_page
  have known : e.dependencies "page" =
      .ok ⟨["name", "year"], ["user"], ["footer"], [], [], ["user", "year"]⟩ := by cbv
  have registered : e.contains "page" = true := by decide +kernel
  obtain ⟨d, known', alike⟩ := render_eq_of_agree filled registered
  obtain rfl := Except.ok.inj (known.symm.trans known')
  refine ⟨filled, registered, known, alike ?_ ?_ (fun tag seen => ?_) _ _⟩
  · simp [user, Value.LambdaFree, Value.LambdaFreeEntries]
  · simp [user, Value.LambdaFree, Value.LambdaFreeEntries]
  · have named : tag ∈ ["name", "year", "user"] := by simpa [or_assoc] using seen
    simp only [List.mem_cons, List.not_mem_nil, or_false] at named
    rcases named with rfl | rfl | rfl <;> rfl

end Engine
end Mustache
