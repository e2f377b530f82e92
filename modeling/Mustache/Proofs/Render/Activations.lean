import Mustache.Proofs.Render.Visited

/-! Which visit has pushed each of the scopes in force. The content of an override never meets the
scope it was taken from again, nor a newer one that was in force then: inside of it only the scopes
around that one are left, and whatever is pushed there belongs to visits that lie further inside. -/
namespace Mustache
open List (Forall₂)
variable {σ : Type}

/-- The visit of a partial with overrides, with those that it lies inside of. Of visits one inside of
the other no two have the same number around them, so this tells the scopes apart that are pushed. -/
abbrev Activation := List Visit

/-- The scope that an activation pushes. -/
def Activation.Pushes (a : Activation) (scope : OverrideScope) : Prop :=
  ∃ env i around, a = ⟨env, .parent i scope⟩ :: around

/-- The activations in force inside of some visits, the newest first. A partial with overrides adds
itself; the content of a block keeps as many of the oldest ones as it has scopes. -/
def activations : List Visit → List Activation
  | [] => []
  | v :: around =>
    match v.node with
    | .parent _ _ => (v :: around) :: activations around
    | .block b =>
      let o := v.env.overrides
      (activations around).drop (o.size - (o.content b).2.size)
    | _ => activations around

/-- The innermost of some visits is that of a block for which an override stands, from the scope that
`taken` has pushed. Those of `newer` have pushed further scopes that are in force there. -/
inductive Takes : List Visit → List Activation → Activation → Prop
  | intro {env : Env} {b override : Block} {enclosing : Overrides} {around : List Visit}
    {newer older : List Activation} {taken : Activation}
    (found : env.overrides.resolve? b.name = some (override, enclosing))
    (inForce : activations around = newer ++ taken :: older)
    (left : older.length = enclosing.size) : Takes (⟨env, .block b⟩ :: around) newer taken

/-- What stands for a block is rendered with the outermost of the scopes in force. -/
theorem Overrides.drop_content (o : Overrides) (b : Block) :
    (o.content b).2.scopes = o.scopes.drop (o.size - (o.content b).2.size) := by
  unfold content
  cases found : o.resolve? b.name with
  | none => simp
  | some result =>
    obtain ⟨override, enclosing⟩ := result
    exact (congrArg scopes (detach_of_resolve? found)).symm

section InForce
variable {v : Visit} {around : List Visit}

theorem activations_of_parent {i : Inclusion} {scope : List Block} (tag : v.node = .parent i scope) :
    activations (v :: around) = (v :: around) :: activations around := by
  simp only [activations, tag]

theorem activations_of_block {b : Block} (tag : v.node = .block b) :
    activations (v :: around) = (activations around).drop
      (v.env.overrides.size - (v.env.overrides.content b).2.size) := by
  simp only [activations, tag]

theorem activations_of_other (parent : ∀ i scope, v.node ≠ .parent i scope)
    (block : ∀ b, v.node ≠ .block b) : activations (v :: around) = activations around := by
  cases tag : v.node with
  | parent i scope => exact (parent i scope tag).elim
  | block b => exact (block b tag).elim
  | text | interpolation | sect | inclusion => simp only [activations, tag]

/-- Whatever is in force inside of a visit was so around it, or is the visit itself. -/
theorem activations_cons (v : Visit) (around : List Visit) :
    activations (v :: around) = (v :: around) :: activations around ∨
      activations (v :: around) <:+ activations around := by
  cases tag : v.node with
  | parent i scope => exact .inl (activations_of_parent tag)
  | block b => exact .inr (activations_of_block tag ▸ List.drop_suffix _ _)
  | text | interpolation | sect | inclusion =>
    have same : activations (v :: around) = activations around :=
      activations_of_other (by simp [tag]) (by simp [tag])
    exact .inr (same.symm ▸ List.suffix_rfl)

theorem suffix_of_mem_activations {visits : List Visit} {a : Activation}
    (mem : a ∈ activations visits) : a <:+ visits := by
  induction visits with
  | nil => cases mem
  | cons v around ih =>
    rcases activations_cons v around with pushed | kept
    · rw [pushed] at mem
      rcases List.mem_cons.1 mem with rfl | older
      · exact List.suffix_rfl
      · exact (ih older).trans (List.suffix_cons v around)
    · exact (ih (kept.subset mem)).trans (List.suffix_cons v around)

/-- A newer activation lies further inside. -/
theorem pairwise_activations (visits : List Visit) :
    (activations visits).Pairwise fun newer older => older.length < newer.length := by
  induction visits with
  | nil => exact .nil
  | cons v around ih =>
    rcases activations_cons v around with pushed | kept
    · rw [pushed]
      refine .cons (fun a mem => ?_) ih
      exact Nat.lt_succ_of_le (suffix_of_mem_activations mem).length_le
    · exact ih.sublist kept.sublist

/-- Further inside there are no other old activations than before. -/
theorem mem_activations_append {inner outer : List Visit} {a : Activation}
    (mem : a ∈ activations (inner ++ outer)) : a ∈ activations outer ∨ outer.length < a.length := by
  induction inner with
  | nil => exact .inl mem
  | cons v inner ih =>
    rcases activations_cons v (inner ++ outer) with pushed | kept
    · rw [List.cons_append, pushed] at mem
      rcases List.mem_cons.1 mem with rfl | older
      · right
        simp only [List.length_cons, List.length_append]
        omega
      · exact ih older
    · exact ih (kept.subset mem)

end InForce

namespace Nested
variable {loader : Loader} {top : Env} {nodes : List Node} {v : Visit} {around : List Visit}

/-- The scopes in force at a visit are those that the activations around it have pushed. -/
theorem pushes (h : Nested loader top nodes v around) (none : top.overrides = .empty) :
    Forall₂ Activation.Pushes (activations around) v.env.overrides.scopes := by
  induction h with
  | outermost mem =>
    rw [none]
    exact .nil
  | @inside u outer env inner n _ way mem before =>
    cases way with
    | children tag | framed tag =>
      rw [activations_of_other (by simp [tag]) (by simp [tag])]
      exact before
    | returned tag =>
      rcases tag with ⟨s, tag, -⟩ | ⟨escaped, tag⟩
      all_goals
        rw [activations_of_other (by simp [tag]) (by simp [tag])]
        exact before
    | @content b tag =>
      rw [activations_of_block tag]
      exact u.env.overrides.drop_content b ▸ List.forall₂_drop _ before
    | @inclusion i _ _ _ includes =>
      obtain ⟨env, node⟩ := u
      cases includes with
      | plain =>
        rw [activations_of_other (by simp) (by simp)]
        exact before
      | parent _ scope =>
        rw [activations_of_parent rfl]
        exact .cons ⟨env, i, outer, rfl⟩ before

/-- A block for which an override stands takes it from an activation in force. -/
theorem takes (h : Nested loader top nodes v around) (none : top.overrides = .empty)
    {b override : Block} {enclosing : Overrides} (tag : v.node = .block b)
    (found : v.env.overrides.resolve? b.name = some (override, enclosing)) :
    ∃ newer taken scope, Takes (v :: around) newer taken ∧ taken.Pushes scope ∧
      scope.get? b.name = some override := by
  obtain ⟨inner, scope, split, declared, -⟩ := Overrides.scopes_of_resolve? found
  have pushes := h.pushes none
  rw [split] at pushes
  obtain ⟨taken, older, first, others, behind⟩ :=
    List.forall₂_cons_right_iff.1 (List.forall₂_drop_append _ _ _ pushes)
  have inForce : activations around =
      (activations around).take inner.length ++ taken :: older := by
    rw [← behind, List.take_append_drop]
  obtain ⟨env, node⟩ := v
  obtain rfl : node = .block b := tag
  exact ⟨_, taken, scope, .intro found inForce others.length_eq, first, declared⟩

/-- Inside of an override the activations around the one it was taken from are left. -/
theorem activations_of_takes (h : Nested loader top nodes v around) (none : top.overrides = .empty)
    {newer : List Activation} {taken : Activation} (takes : Takes (v :: around) newer taken) :
    activations around = newer ++ taken :: activations (v :: around) := by
  cases takes with
  | @intro env b override enclosing around _ older _ found inForce left =>
    have all : env.overrides.size = (activations around).length := (h.pushes none).length_eq.symm
    have gone : env.overrides.size - (env.overrides.content b).2.size =
        (newer ++ [taken]).length := by
      rw [Overrides.content, found, Option.getD_some, ← left, all, inForce, List.append_cons,
        List.length_append, Nat.add_sub_cancel]
    have kept : activations (⟨env, .block b⟩ :: around) = older := by
      rw [activations_of_block rfl, gone, inForce, List.append_cons newer taken older,
        List.drop_left]
    rw [kept, inForce]

/-- Inside of an override neither the activation it was taken from is in force nor a newer one that
was so then. -/
theorem not_mem_activations {inner : List Visit} {newer : List Activation} {taken : Activation}
    (h : Nested loader top nodes v around) (none : top.overrides = .empty)
    (takes : Takes (v :: around) newer taken) {a : Activation}
    (mem : a ∈ activations (inner ++ v :: around)) : a ∉ taken :: newer := by
  have inForce := h.activations_of_takes none takes
  rw [List.append_cons] at inForce
  intro again
  have before : a ∈ newer ++ [taken] := by simpa [or_comm] using again
  rcases mem_activations_append mem with left | within
  · have ordered := pairwise_activations around
    rw [inForce, List.pairwise_append] at ordered
    exact Nat.lt_irrefl _ (ordered.2.2 a before a left)
  · -- what is pushed further inside has more visits around it
    have held : a ∈ activations around := inForce ▸ List.mem_append_left _ before
    have outside := (suffix_of_mem_activations held).length_le
    simp only [List.length_cons] at within
    omega

end Nested

namespace Renderer

/-- No override runs inside of itself. The journal belongs to the very render, the scopes in force at
each visit in it are those that the activations around have pushed, and a block for which an override
stands takes it from one of these. While its content is rendered, that activation is not taken from
again, nor is a newer one that was in force then. -/
theorem accept_never_retakes (setup : Setup σ) (data : Value) (root : Option String) (host : σ)
    (nodes : List Node) :
    let r := fresh setup data root host
    r.acceptRecorded nodes = ((r.accept nodes).1, (r.accept nodes).2, r.journal nodes) ∧
    (∀ v around, v :: around ∈ r.journal nodes →
      Forall₂ Activation.Pushes (activations around) v.env.overrides.scopes ∧
      ∀ b override enclosing, v.node = .block b →
        v.env.overrides.resolve? b.name = some (override, enclosing) →
        ∃ newer taken scope, Takes (v :: around) newer taken ∧ taken.Pushes scope ∧
          scope.get? b.name = some override) ∧
    ∀ inner outer newer taken newer' taken', inner ++ outer ∈ r.journal nodes → inner ≠ [] →
      Takes outer newer taken → Takes (inner ++ outer) newer' taken' → taken' ∉ taken :: newer := by
  intro r
  have none : r.env.overrides = .empty := by simp only [r, fresh_eq, Env.ofData]
  have nested {v : Visit} {around : List Visit} (mem : v :: around ∈ r.journal nodes) :=
    (r.accounts_journal nodes).1.nested mem
  refine ⟨r.acceptRecorded_eq nodes, fun v around mem => ⟨?_, ?_⟩, ?_⟩
  · exact (nested mem).pushes none
  · exact fun b override enclosing => (nested mem).takes none
  · intro inner outer newer taken newer' taken' mem some takes takes'
    obtain ⟨v, inner, rfl⟩ := List.exists_cons_of_ne_nil some
    obtain ⟨u, around, rfl⟩ : ∃ u around, outer = u :: around := by
      cases takes
      exact ⟨_, _, rfl⟩
    have inForce : taken' ∈ activations (inner ++ u :: around) := by
      cases takes' with
      | intro found split left =>
        rw [show activations (inner ++ u :: around) = _ from split]
        exact List.mem_append_right _ List.mem_cons_self
    exact (nested mem).around.not_mem_activations none takes inForce

/-- An override that holds a block of its own name. Of each visit, the newest first: how many visits
there are around it, and how many of these there are around each activation in force. -/
example :
    let setup : Setup Unit := ⟨.standard, fun _ => none, ⟨fun _ _ s => (.ok "", s), fun _ => false⟩⟩
    let layout := Template.ofNodes [.block ⟨"title", [.text "Journal"]⟩]
    let title : Block := ⟨"title", [.text "The ", .block ⟨"title", [.text "Diary"]⟩]⟩
    let r := fresh setup .null none ()
    let visits := r.journal [.parent ⟨"layout", "", some layout⟩ [title]]
    (r.accept [.parent ⟨"layout", "", some layout⟩ [title]]).2.output = "The Diary" ∧
      visits.map (fun visits => (visits.tail.length, (activations visits.tail).map (·.tail.length))) =
        [(3, []), (2, []), (2, []), (1, [0]), (0, [])] := by
  decide +kernel

end Renderer

end Mustache
