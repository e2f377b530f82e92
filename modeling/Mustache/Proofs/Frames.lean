import Mustache.Context

/-! What holds of all frames holds of whatever a name resolves to, if values hand it down to what is
in them. That there are no lambdas is such a property. -/
namespace Mustache

namespace Value

theorem lambdaFreeItems_iff {items : List Value} :
    LambdaFreeItems items ↔ ∀ item ∈ items, item.LambdaFree := by
  induction items with
  | nil => simp [LambdaFreeItems]
  | cons item rest ih => simp only [LambdaFreeItems, ih, List.forall_mem_cons]

theorem LambdaFree.of_mem {items : List Value} {item : Value} (h : (list items).LambdaFree)
    (hm : item ∈ items) : item.LambdaFree := by
  simp only [LambdaFree] at h
  exact lambdaFreeItems_iff.1 h item hm

theorem LambdaFree.of_entry {entries : List (String × Value)} {key : String} {member : Value}
    (h : LambdaFreeEntries entries) (hm : Entries.get? key entries = some member) :
    member.LambdaFree := by
  induction entries with
  | nil => cases hm
  | cons pair rest ih =>
    obtain ⟨k, value⟩ := pair
    simp only [LambdaFreeEntries] at h
    rw [Entries.get?_cons] at hm
    split at hm
    · obtain rfl := Option.some.inj hm
      exact h.1
    · exact ih h.2 hm

theorem LambdaFree.get? {value member : Value} {key : String} (h : value.LambdaFree)
    (hm : value.get? key = some member) : member.LambdaFree := by
  cases value with
  | map entries =>
    simp only [LambdaFree] at h
    exact of_entry h hm
  | _ => cases hm

theorem eq_lambda_of_shape {value : Value} (h : value.shape = .renderable) :
    ∃ l, value = .lambda l := by
  cases value with
  | lambda l => exact ⟨l, rfl⟩
  | list items => cases items <;> simp [shape] at h
  | null | map => simp [shape] at h
  | bool | int | float | str =>
    simp only [shape] at h
    split at h <;> cases h

/-- A property that values hand down to their members and items. A lambda has it only if `lambdas`
holds. -/
structure Closed (p : Value → Prop) (lambdas : Prop) : Prop where
  member {value member : Value} {key : String} (h : p value) (hm : value.get? key = some member) :
    p member
  item {items : List Value} {item : Value} (h : p (.list items)) (hm : item ∈ items) : p item
  lambda {l : Lambda} (h : p (.lambda l)) : lambdas

theorem closed_lambdaFree : Closed LambdaFree False where
  member h hm := h.get? hm
  item h hm := h.of_mem hm
  lambda h := by simp only [LambdaFree] at h

theorem Closed.descend? {p : Value → Prop} {lambdas : Prop} (closed : Closed p lambdas)
    {value member : Value} {path : List String} (h : p value)
    (hm : value.descend? path = some member) : p member := by
  induction path generalizing value with
  | nil =>
    obtain rfl := Option.some.inj hm
    exact h
  | cons key path ih =>
    simp only [Value.descend?] at hm
    obtain ⟨inner, hi, hm⟩ := Option.bind_eq_some_iff.1 hm
    exact ih (closed.member h hi) hm

/-- The values that data hold, at any depth, the data among them. -/
inductive Contains (data : Value) : Value → Prop
  | self : Contains data data
  | member {value member : Value} {key : String} (outer : Contains data value)
    (hm : value.get? key = some member) : Contains data member
  | item {items : List Value} {item : Value} (outer : Contains data (list items))
    (hm : item ∈ items) : Contains data item

theorem Contains.all {data value : Value} {p : Value → Prop} {lambdas : Prop}
    (inside : data.Contains value) (closed : Closed p lambdas) (h : p data) : p value := by
  induction inside with
  | self => exact h
  | member _ hm ih => exact closed.member ih hm
  | item _ hm ih => exact closed.item ih hm

theorem closed_contains {data : Value} (free : data.LambdaFree) : Closed data.Contains False where
  member := .member
  item := .item
  lambda inside := closed_lambdaFree.lambda (inside.all closed_lambdaFree free)

end Value

namespace Context

/-- A property of every frame. -/
def All (p : Value → Prop) (c : Context) : Prop := ∀ frame ∈ c.frames, p frame

variable {p : Value → Prop} {lambdas : Prop} {c : Context}

theorem All.ofRoot {root : Value} (h : p root) : (ofRoot root).All p := by
  intro frame hf
  obtain rfl : frame = root := by simpa [frames, Context.ofRoot] using hf
  exact h

theorem All.push {frame : Value} (h : c.All p) (hf : p frame) : (c.push frame).All p := by
  intro other ho
  rw [frames_push] at ho
  rcases List.mem_cons.1 ho with rfl | ho
  · exact hf
  · exact h other ho

theorem top_mem_frames (c : Context) : c.top ∈ c.frames := by
  unfold top frames
  cases c.inner <;> simp

theorem All.resolve? {name : String} {value : Value} (closed : Value.Closed p lambdas)
    (h : c.All p) (hr : c.resolve? name = some value) : p value := by
  unfold Context.resolve? at hr
  split at hr
  · obtain rfl := Option.some.inj hr
    exact h _ c.top_mem_frames
  · obtain ⟨found, hf, hd⟩ := Option.bind_eq_some_iff.1 hr
    obtain ⟨frame, hm, hg⟩ := List.exists_of_findSome?_eq_some hf
    exact closed.descend? (closed.member (h frame hm) hg) hd

end Context

end Mustache
