import Mustache.Proofs.Dependencies.Traced
import Mustache.Proofs.Names

/-! A strict render fails outside of sections only for variables that are predicted to be missing. Such
a variable stands below no section where the walk met it, so it is a root name; and there is no frame
above the data, so the data is what lacks it. -/
namespace Mustache

namespace Context
variable {data : Value} {name : String}

/-- With no frame above the data, the data holds the first segment or nothing does. -/
theorem resolve?_ofRoot (data : Value) (named : name ≠ ".") :
    (ofRoot data).resolve? name =
      (data.get? (nameSegments name).1).bind fun value => value.descend? (nameSegments name).2 := by
  simp [resolve?, named, frames, ofRoot]

theorem resolve?_firstSegment (data : Value) (name : String) :
    (ofRoot data).resolve? (nameSegments name).1 = data.get? (nameSegments name).1 := by
  have whole := nameSegments_of_dotless (dot_not_mem_firstSegment name)
  rw [resolve?_ofRoot data (firstSegment_ne_dot name), whole]
  cases data.get? (nameSegments name).1 <;> rfl

theorem get?_of_missing (dotless : '.' ∉ name.toList)
    (absent : (ofRoot data).resolve? name = none) : data.get? name = none := by
  have whole := resolve?_firstSegment data name
  rw [nameSegments_of_dotless dotless] at whole
  rw [← whole, absent]

end Context

namespace Dependencies
variable {d : Dependencies} {data : Value} {name : String}

/-- A root name is reported missing exactly if its first segment resolves to nothing. -/
theorem mem_missingFrom_iff : name ∈ d.missingFrom data ↔ name ∈ d.rootNames ∧
    (Context.ofRoot data).resolve? (nameSegments name).1 = none := by
  rw [Context.resolve?_firstSegment, missingFrom, List.mem_filter]
  simp [firstSegment_ne_dot]

theorem mem_missingFrom (root : name ∈ d.rootNames) (dotless : '.' ∉ name.toList)
    (absent : data.get? name = none) : name ∈ d.missingFrom data := by
  refine mem_missingFrom_iff.2 ⟨root, ?_⟩
  rw [Context.resolve?_firstSegment, nameSegments_of_dotless dotless]
  exact absent

/-- What is reported missing resolves to nothing in the data alone, but for the single dot, which
always resolves; and the first segment of a root name resolves unless the name is reported. -/
theorem missingFrom_unresolved (d : Dependencies) (data : Value) :
    (∀ name ∈ d.missingFrom data,
      name ∈ d.rootNames ∧ ((Context.ofRoot data).resolve? name = none ↔ name ≠ ".")) ∧
    (∀ name ∈ d.rootNames, name ∉ d.missingFrom data ↔
      ((Context.ofRoot data).resolve? (nameSegments name).1).isSome) := by
  constructor
  · intro name missing
    obtain ⟨root, absent⟩ := mem_missingFrom_iff.1 missing
    refine ⟨root, fun unresolved => ?_, fun named => ?_⟩
    · rintro rfl
      cases unresolved
    · rw [Context.resolve?_firstSegment] at absent
      rw [Context.resolve?_ofRoot data named, absent]
      rfl
  · intro name root
    rw [mem_missingFrom_iff, Option.isSome_iff_ne_none]
    simp [root]

/-- The names that a page takes from its data, outside of all sections. -/
def pageNames : Dependencies := ⟨[], [], [], [], [], ["author.name", "title.short"]⟩

/-- The author is missing. The title is there, though it has no short form. -/
theorem missingFrom_page :
    let data := Value.map [("title", .str "On foot")]
    pageNames.missingFrom data = ["author.name"] ∧
      (Context.ofRoot data).resolve? "author.name" = none ∧
      ((Context.ofRoot data).resolve? (nameSegments "title.short").1).isSome := by
  intro data
  have reported : pageNames.missingFrom data = ["author.name"] := by decide +kernel
  obtain ⟨absent, present⟩ := missingFrom_unresolved pageNames data
  refine ⟨reported, ?_, ?_⟩
  · exact (absent "author.name" (by rw [reported]; exact List.mem_singleton_self _)).2.2 (by decide)
  · refine (present "title.short" (by decide)).1 ?_
    rw [reported]
    decide

/-- The single dot is the data itself, and is reported missing all the same. -/
theorem missingFrom_dot :
    let data := Value.map [("title", .str "On foot")]
    (Dependencies.mk [] [] [] [] [] ["."]).missingFrom data = ["."] ∧
      (Context.ofRoot data).resolve? "." = some data :=
  ⟨by decide +kernel, rfl⟩

end Dependencies

/-- A missing variable is that of the tag visited. -/
theorem Visit.Raises.of_missing {σ : Type} {setup : Setup σ} {v : Visit} {name : String}
    (h : v.Raises setup (.missingVariable name)) :
    (∃ escaped, v.node = .interpolation name escaped) ∧ v.env.context.resolve? name = none := by
  generalize raised : Error.missingVariable name = error at h
  cases h with
  | missing tag absent =>
    obtain rfl := Error.missingVariable.inj raised
    exact ⟨⟨_, tag⟩, absent⟩
  | fault fault =>
    rcases fault.error_eq with ⟨_, rfl⟩ | ⟨_, -, rfl⟩ <;> cases raised
  | lambda _ about =>
    rcases about with ⟨_, rfl⟩ | rfl | ⟨_, rfl⟩ <;> cases raised
  | cancelled | conversion => cases raised

namespace Engine
variable {σ : Type} {e : Engine} {name tag : String} {data : Value}

/-- A render without lambdas that fails for a missing variable does so at the visit made last, that of
a variable tag whose name does not resolve there. If no section lies around that visit, the variable
is a root name of the template, and one without dots is among the names that the data is said to
lack. -/
theorem missing_of_render (filled : e.Filled) (free : data.LambdaFree) (host : Host σ) (state : σ)
    (failed : (e.render host name data state).result = .error (.missingVariable tag)) :
    ∃ d v around earlier, e.dependencies name = .ok d ∧
      e.journal host name data state = (v :: around) :: earlier ∧
      (∃ escaped, v.node = .interpolation tag escaped) ∧ v.env.context.resolve? tag = none ∧
      ((∀ outer ∈ around, outer.node.isSection = false) →
        tag ∈ d.rootNames ∧ ('.' ∉ tag.toList → tag ∈ e.missing name data)) := by
  have registered : e.contains name = true := by
    cases found : e.get? name with
    | some t => rw [contains, found, Option.isSome_some]
    | none =>
      rw [render, found] at failed
      cases failed
  obtain ⟨t, w, found, walks, known⟩ := walks_of_contains filled.unsettled registered
  have renders := renders_of_walks filled.unsettled found walks free host state
  rcases renders.fails failed with deep | ⟨v, around, earlier, last, raises⟩
  · cases deep
  obtain ⟨⟨escaped, node⟩, absent⟩ := raises.of_missing
  refine ⟨w.found, v, around, earlier, known, last, ⟨escaped, node⟩, absent, fun outside => ?_⟩
  obtain ⟨traced, here⟩ := renders.traced (last ▸ List.mem_cons_self)
  rw [insideSection_eq_false.2 outside] at traced here
  rw [node] at here
  have named : tag ≠ "." := by
    rintro rfl
    cases absent
  have root : tag ∈ w.found.rootNames := here.recorded_variable.2 rfl named
  refine ⟨root, fun dotless => ?_⟩
  rw [missing, known]
  rw [traced.root rfl] at absent
  exact Dependencies.mem_missingFrom root dotless (Context.get?_of_missing dotless absent)

/-- No section lies around the title that is missing. -/
theorem missing_article :
    let data := Value.map [("year", .str "2020")]
    (pages.render (scriptedHost [] false) "article" data .start).result =
        .error (.missingVariable "title") ∧
      (pages.journal (scriptedHost [] false) "article" data .start).head?.map
        (fun visits => insideSection visits.tail) = some false ∧
      "title" ∈ pages.missing "article" data := by
  intro data
  have failed : (pages.render (scriptedHost [] false) "article" data .start).result =
      .error (.missingVariable "title") := by decide +kernel
  have outside : (pages.journal (scriptedHost [] false) "article" data .start).head?.map
      (fun visits => insideSection visits.tail) = some false := by decide +kernel
  have free : data.LambdaFree := by simp [data, Value.LambdaFree, Value.LambdaFreeEntries]
  obtain ⟨d, v, around, earlier, -, last, -, -, predicted⟩ :=
    missing_of_render pages_filled free (scriptedHost [] false) .start failed
  refine ⟨failed, outside, ?_⟩
  rw [last] at outside
  exact (predicted (insideSection_eq_false.1 (Option.some.inj outside))).2 (by decide)

end Engine

end Mustache
