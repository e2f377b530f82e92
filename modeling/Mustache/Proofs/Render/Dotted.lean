import Mustache.Proofs.Names
import Mustache.Proofs.Render.Sections

/-! A dotted name beside nested sections. A variable with a dotted name shows what the last segment means
inside of upright sections over the other segments: each of these is a map that holds the next segment,
and it is the nearest frame there. -/
namespace Mustache

/-- A node inside of upright sections, the outermost first. -/
def Node.within (node : Node) : List (String × Body) → Node
  | [] => node
  | (name, body) :: inner => .sect ⟨name, false, body, [node.within inner]⟩

namespace Render
variable {σ : Type}

theorem interpolated_of_plain (setup : Setup σ) (deeper : Deeper σ) (env : Env) (name : String)
    {v : Value} (plain : ∀ l, v ≠ .lambda l) :
    interpolated setup deeper env name v =
      match v.text? with
      | some text => pure text
      | none => throw (.conversion name v.kind) := by
  cases v with
  | lambda l => exact absurd rfl (plain l)
  | _ => rfl

end Render

namespace InPlace
variable {σ : Type}

/-- What a variable comes to whose value is not a lambda: the text of the value is written, if it has
one. -/
def display (m : InPlace σ) (name : String) (escaped : Bool) (v : Value) :
    Except Error Unit × InPlace σ :=
  match v.text? with
  | some text =>
    (.ok (), { m with page := m.page.put (.value m.indent text (Render.shown escaped text)) })
  | none => (.error (.conversion name v.kind), m)

theorem display_fst_eq_ok_iff {m : InPlace σ} {name : String} {escaped : Bool} {v : Value} :
    (m.display name escaped v).1 = .ok () ↔ v.text?.isSome := by
  unfold display
  cases v.text? <;> simp

/-- The name is only for the error. -/
theorem display_snd (m : InPlace σ) (name other : String) (escaped : Bool) (v : Value) :
    (m.display name escaped v).2 = (m.display other escaped v).2 := by
  unfold display
  cases v.text? <;> rfl

theorem output_display (m : InPlace σ) (name : String) (escaped : Bool) (v : Value) :
    ∃ added, (m.display name escaped v).2.output = m.output ++ added := by
  unfold display
  cases v.text? with
  | none => exact ⟨"", String.append_empty.symm⟩
  | some text => exact m.page.put_grows _

/-- It does not matter in which frames and how far down a value is shown. -/
theorem display_below (m : InPlace σ) (context : Context) (depth : Nat) (name : String)
    (escaped : Bool) (v : Value) :
    let below := display { m with context, depth } name escaped v
    (below.1, { below.2 with context := m.context, depth := m.depth }) =
      m.display name escaped v := by
  unfold display
  cases v.text? <;> rfl

section Active
variable {setup : Setup σ} {m : InPlace σ} (active : setup.host.cancelled m.host = false)
  {v : Value} (plain : ∀ l, v ≠ .lambda l)
include active

include plain in
theorem accept_interpolation {name : String} (found : m.context.resolve? name = some v)
    (escaped : Bool) : m.accept setup [.interpolation name escaped] = m.display name escaped v := by
  have here : m.env.context.resolve? name = some v := found
  rw [accept_of_active active, Render.handle, Render.visitInterpolation, here]
  dsimp only
  rw [Render.interpolated_of_plain setup _ m.env name plain, display]
  cases v.text? <;> rfl

include plain in
/-- By induction on the sections. What is rendered inside of the outermost one is a variable in fewer
sections again, and its path is found in the map on top. -/
theorem accept_within {outer : List (String × Body)} {last : String}
    (segments : ∀ s ∈ outer.map Prod.fst ++ [last], IsSegment s)
    (room : m.depth + outer.length ≤ setup.config.maxDepth)
    (found : m.context.resolve? (dottedName (outer.map Prod.fst ++ [last])) = some v)
    (escaped : Bool) :
    m.accept setup [(Node.interpolation last escaped).within outer] = m.display last escaped v := by
  induction outer generalizing m with
  | nil => exact accept_interpolation active plain (dottedName_singleton last ▸ found) escaped
  | cons pair inner ih =>
    obtain ⟨name, body⟩ := pair
    rw [List.map_cons, List.cons_append] at segments found
    rw [List.length_cons] at room
    obtain ⟨-, later⟩ := List.forall_mem_cons.1 segments
    obtain ⟨value, here, way⟩ := Context.exists_of_resolve?_dottedName segments found
    obtain ⟨next, others, path⟩ := List.exists_cons_of_ne_nil
      (List.append_ne_nil_of_right_ne_nil (inner.map Prod.fst) (List.cons_ne_nil last []))
    obtain ⟨entries, rfl⟩ : ∃ entries, value = .map entries := by
      rw [path] at way
      obtain ⟨member, held, -⟩ := Option.bind_eq_some_iff.1 way
      exact Value.eq_map_of_get? held
    have inside : (m.context.push (.map entries)).resolve?
        (dottedName (inner.map Prod.fst ++ [last])) = some v := by
      rw [path] at later way ⊢
      exact Context.resolve?_push_dottedName later way
    have free : ¬ setup.config.maxDepth ≤ m.depth := by omega
    have left : m.depth + 1 + inner.length ≤ setup.config.maxDepth := by omega
    have below := ih (m := { m with context := m.context.push (.map entries), depth := m.depth + 1 })
      active later left inside
    refine (accept_scalar active (s := ⟨name, false, body, [_]⟩) rfl here (by rw [Value.shape])).trans ?_
    rw [acceptBelow, if_neg free, below]
    exact m.display_below _ _ last escaped v

end Active

/-- A variable with a dotted name and the nested sections over its segments, around a variable with the
last one, come to the same. If the name means a value that is not a lambda and there are levels for the
sections, then one succeeds if the other does, and both leave the renderer in the same state, with the
same text added. Where they fail for want of a text, each names its own tag. -/
theorem accept_dotted (setup : Setup σ) (m : InPlace σ) {outer : List (String × Body)} {last : String}
    (segments : ∀ s ∈ outer.map Prod.fst ++ [last], IsSegment s)
    (room : m.depth + outer.length ≤ setup.config.maxDepth) {v : Value}
    (found : m.context.resolve? (dottedName (outer.map Prod.fst ++ [last])) = some v)
    (plain : ∀ l, v ≠ .lambda l) (escaped : Bool) :
    let name := dottedName (outer.map Prod.fst ++ [last])
    let dotted := m.accept setup [.interpolation name escaped]
    let nested := m.accept setup [(Node.interpolation last escaped).within outer]
    (nested.1 = .ok () ↔ dotted.1 = .ok ()) ∧ nested.2 = dotted.2 ∧
      (∃ added, dotted.2.output = m.output ++ added) ∧
      ∀ error, dotted.1 = .error error → nested.1 = .error error ∨
        error = .conversion name v.kind ∧ nested.1 = .error (.conversion last v.kind) := by
  intro name dotted nested
  cases flag : setup.host.cancelled m.host with
  | true =>
    have stopped (n : Node) : m.accept setup [n] = (.error .cancelled, m) :=
      accept_of_cancelled flag n
    have same : nested = dotted := (stopped _).trans (stopped _).symm
    rw [same]
    refine ⟨.rfl, rfl, ⟨"", ?_⟩, fun error failed => .inl failed⟩
    rw [show dotted = _ from stopped _, String.append_empty]
  | false =>
    have shown : dotted = m.display name escaped v := accept_interpolation flag plain found escaped
    have inside : nested = m.display last escaped v :=
      accept_within flag plain segments room found escaped
    rw [shown, inside]
    refine ⟨?_, m.display_snd last name escaped v, m.output_display name escaped v, ?_⟩
    · rw [display_fst_eq_ok_iff, display_fst_eq_ok_iff]
    · unfold display
      cases v.text? with
      | some text => nofun
      | none =>
        intro error failed
        exact .inr ⟨(Except.error.inj failed).symm, rfl⟩

/-- The city of an address, inside of data that have a city of their own. -/
theorem accept_address :
    let setup : Setup ScriptedState := ⟨.standard, .empty, scriptedHost [] true⟩
    let address := Value.map [("city", .str "Bonn & Bad Godesberg")]
    let data := Value.map [("address", .null), ("city", .str "Ulm"),
      ("user", .map [("address", address)])]
    let m : InPlace ScriptedState := start data (some "page") .start
    let sections : List (String × Body) := [("user", .absent), ("address", .absent)]
    let dotted := m.accept setup [.interpolation "user.address.city" true]
    let nested := m.accept setup [(Node.interpolation "city" true).within sections]
    (∀ s ∈ ["user", "address", "city"], IsSegment s) ∧ m.depth + 2 ≤ setup.config.maxDepth ∧
      m.context.resolve? "user.address.city" = some (.str "Bonn & Bad Godesberg") ∧
      dotted.1 = .ok () ∧ dotted.2.output = "Bonn &amp; Bad Godesberg" ∧
      nested.1 = .ok () ∧ nested.2 = dotted.2 := by
  intro setup address data m sections dotted nested
  have segments : ∀ s ∈ sections.map Prod.fst ++ ["city"], IsSegment s := by decide
  have name : dottedName (sections.map Prod.fst ++ ["city"]) = "user.address.city" := by decide
  have found : m.context.resolve? (dottedName (sections.map Prod.fst ++ ["city"])) =
      some (.str "Bonn & Bad Godesberg") := (Context.resolve?_dottedName segments).trans rfl
  have room : m.depth + sections.length ≤ setup.config.maxDepth := by decide
  have ok : dotted.1 = .ok () := by decide +kernel
  obtain ⟨both, same, -, -⟩ := accept_dotted setup m segments room found nofun true
  rw [name] at both same found
  exact ⟨segments, room, found, ok, by decide +kernel, both.2 ok, same⟩

end InPlace
end Mustache
