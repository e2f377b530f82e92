import Mustache.Proofs.Reading.Reread
import Mustache.Proofs.Render.Twins
import Mustache.Scripted

/-! A lambda that answers with what it is given. What it is given is the body of a section as it was
written; read and rendered in place of the section, it does what the children do. -/
namespace Mustache
open List (Forall₂)

/-- Nodes that differ only in where the bodies of sections lie: the bodies say the same. -/
def Node.SameText (n n' : Node) : Prop :=
  ∃ f : Body → Body, n' = n.mapBody f ∧
    ∀ s, Occurs [n] (.sect s) → (f s.body).text = s.body.text ∧
      (f s.body).delimiters = s.body.delimiters

namespace Node
variable {nodes : List Node} {n : Node}

theorem sameText_refl (n : Node) : n.SameText n := ⟨id, n.mapBody_id.symm, fun _ _ => ⟨rfl, rfl⟩⟩

theorem sameText_map {f : Body → Body}
    (h : ∀ s, Occurs nodes (.sect s) → (f s.body).text = s.body.text ∧
      (f s.body).delimiters = s.body.delimiters) :
    Forall₂ SameText nodes (nodes.map (mapBody f)) := by
  rw [List.forall₂_map_right_iff, List.forall₂_same]
  exact fun n mem => ⟨f, rfl, fun s inner => h s (inner.of_mem mem)⟩

theorem sameText_forall_refl (nodes : List Node) : Forall₂ SameText nodes nodes :=
  List.forall₂_same.2 fun n _ => sameText_refl n

theorem matching_sameText (loader : Loader) :
    Matching loader (fun _ => True) True SameText where
  text h := by
    obtain ⟨f, rfl, -⟩ := h
    rfl
  interpolation h := by
    obtain ⟨f, rfl, -⟩ := h
    exact ⟨rfl, trivial⟩
  sect {s n} h := by
    obtain ⟨f, rfl, same⟩ := h
    have here := same s (.top (List.mem_singleton_self _))
    refine ⟨s.mapBody f, rfl, trivial, by simp, by simp, by simp [here.1], by simp [here.2], ?_⟩
    rw [Section.children_mapBody]
    exact sameText_map fun t inner => same t (.of_parts inner)
  inclusion h := by
    obtain ⟨f, rfl, -⟩ := h
    exact ⟨rfl, fun t _ => sameText_forall_refl t.nodes⟩
  parent {i scope n} h := by
    obtain ⟨f, rfl, same⟩ := h
    refine ⟨scope.map (Block.mapBody f), by simp, sameText_refl _, ?_⟩
    rw [List.forall₂_map_right_iff, List.forall₂_same]
    exact fun b mem => ⟨f, rfl, fun s inner =>
      same s (.of_parts (inner.of_mem (List.mem_map_of_mem mem)))⟩
  block {b n} h := by
    obtain ⟨f, rfl, same⟩ := h
    refine ⟨b.mapBody f, rfl, by simp, ?_⟩
    rw [Block.children_mapBody]
    exact sameText_map fun t inner => same t (.of_parts inner)
  returned {text d t} _ _ := sameText_forall_refl t.nodes

end Node

theorem Env.twin_refl (env : Env) : env.Twin (· = ·) Node.SameText env where
  context := rfl
  overrides := List.forall₂_same.2 fun _ _ =>
    List.forall₂_same.2 fun b _ => Node.sameText_refl (.block b)
  path := rfl
  indent := rfl

namespace Render
variable {σ : Type} {setup : Setup σ}

/-- Nodes whose bodies say the same are rendered alike. -/
theorem descend_sameText (room : Nat) (env : Env) {nodes nodes' : List Node}
    (h : Forall₂ Node.SameText nodes nodes') :
    descend setup room env nodes = descend setup room env nodes' :=
  twins_descend Context.matching_eq (Node.matching_sameText setup.loader) room env.twin_refl h

/-- A lambda that answers with the body of its section. -/
theorem visitSection_echo {deeper : Deeper σ} {env : Env} {s : Section} {l : Lambda}
    {state : RenderState σ} {later : σ} (upright : s.inverted = false)
    (found : env.context.resolve? s.name = some (.lambda l))
    (echo : setup.host.invoke l s.body.text state.host = (.ok s.body.text, later)) :
    visitSection setup deeper env s state =
      renderReturned deeper env s.body.text s.body.delimiters
        { state with requests := .call l s.body.text :: state.requests, host := later } := by
  have called : invoke setup s.name l s.body.text state = .ok s.body.text
      { state with requests := .call l s.body.text :: state.requests, host := later } := by
    simp only [invoke, echo]
  unfold visitSection
  simp only [found, upright, visitUpright]
  -- what is left is the bind of the invocation, with the lambda found
  change (invoke setup s.name l s.body.text >>= fun returned =>
    renderReturned deeper env returned s.body.delimiters) state = _
  rw [bind_apply, called]

end Render

/-- A section with its tags on lines of their own: its body, read with its delimiters, gives the
children again, but for the places of the bodies in them, which keep their text. So a lambda that
answers with the body renders what the children render. -/
theorem Section.reread_body {source : String} {d : ValidDelimiters} {nodes : List Node}
    (ok : parseNodes source d = .ok nodes) {s : Section} (occurs : Node.Occurs nodes (.sect s))
    {opening closing : Tag} (tags : s.Between source d opening closing)
    (alone : opening.alone = true) (alone' : closing.alone = true) :
    (∃ again, Template.parseWith s.body.delimiters s.body.text = .ok ⟨none, s.body.text, again⟩ ∧
      s.children = again.map (Node.mapBody (.within source s.body.start)) ∧
      ∀ t, Node.Occurs again (.sect t) → t.body.source = s.body.text ∧
        (t.body.within source s.body.start).text = t.body.text) ∧
    ∀ {σ : Type} (setup : Setup σ) (room : Nat) (env : Env) (l : Lambda) (state : RenderState σ)
      (later : σ), s.inverted = false → env.context.resolve? s.name = some (.lambda l) →
      setup.host.invoke l s.body.text state.host = (.ok s.body.text, later) →
      Render.visitSection setup (Render.descend setup room) env s state =
        Render.descend setup room env s.children
          { state with requests := .call l s.body.text :: state.requests, host := later } := by
  obtain ⟨again, read, children, kept⟩ := parseWith_body ok occurs tags alone alone'
  refine ⟨⟨again, read, children, kept⟩, ?_⟩
  intro σ setup room env l state later upright found echo
  rw [Render.visitSection_echo upright found echo, Render.renderReturned, read]
  have same : Forall₂ Node.SameText again s.children := by
    rw [children]
    exact Node.sameText_map fun t inner => ⟨(kept t inner).2, rfl⟩
  exact congrFun (Render.descend_sameText room env same) _

/-- A roll of names, each tag on a line of its own. -/
def roll : String :=
  "\x7b\x7b#roll\x7d\x7d\n\x7b\x7b#name\x7d\x7d\n- \x7b\x7b.\x7d\x7d\n" ++
    "\x7b\x7b/name\x7d\x7d\n\x7b\x7b/roll\x7d\x7d\n"

def rollSection : Section :=
  ⟨"roll", false, ⟨roll, 10, 38, .standard⟩,
    [.sect ⟨"name", false, ⟨roll, 20, 28, .standard⟩,
      [.text "- ", .interpolation "." true, .text "\n"]⟩]⟩

theorem Section.reread_roll :
    (∃ again, Template.parseWith .standard rollSection.body.text =
        .ok ⟨none, rollSection.body.text, again⟩ ∧
      rollSection.children = again.map (Node.mapBody (.within roll 10))) ∧
    let setup : Setup ScriptedState := ⟨.standard, .empty, scriptedHost [⟨"echo", .echo⟩] false⟩
    let env := Env.ofData (.map [("roll", .lambda ⟨0⟩)])
    ∀ room, Render.visitSection setup (Render.descend setup room) env rollSection (.start .start) =
      Render.descend setup room env rollSection.children
        ⟨[], [.call ⟨0⟩ rollSection.body.text], ⟨[⟨0⟩], false⟩⟩ := by
  have ok : parseNodes roll .standard = .ok [.sect rollSection] := by decide +kernel
  have tags : rollSection.Between roll .standard
      ⟨.opening (.sect false) "roll", .start, ⟨10, 2, 1⟩, true, "", .standard⟩
      ⟨.closing "roll", ⟨38, 5, 1⟩, ⟨48, 6, 1⟩, true, "", .standard⟩ :=
    ⟨by decide +kernel, rfl, by decide +kernel, rfl⟩
  obtain ⟨⟨again, read, children, -⟩, echo⟩ :=
    Section.reread_body ok (.top List.mem_cons_self) tags rfl rfl
  refine ⟨⟨again, read, children⟩, fun room => ?_⟩
  exact echo _ room _ ⟨0⟩ _ _ rfl rfl rfl

end Mustache
