import Mustache.Doc.Engine
import Mustache.Proofs.Doc.Template

/-! An engine is stored as its templates by key, each by its name and source, and its settings. What is
restored from this form is the same engine, if the nodes of every template are those that the standard
delimiters read in its source. -/
namespace Mustache

/-- The nodes are those of the source, read with the standard delimiters. -/
def Template.Reread (t : Template) : Prop := parse t.source = .ok { t with name := none }

instance (t : Template) : Decidable t.Reread :=
  inferInstanceAs (Decidable (Template.parse t.source = .ok { t with name := none }))

namespace Template
variable {t : Template}

theorem reread_of_parse {source : String} (parsed : parse source = .ok t) : t.Reread := by
  obtain ⟨-, -, whole⟩ := parseWith_eq_ok_iff.1 parsed
  rw [Reread, whole]
  exact parsed.trans (congrArg Except.ok whole)

theorem Reread.withName (h : t.Reread) (name : String) : (t.withName name).Reread := h

theorem Reread.ofDoc_toDoc (h : t.Reread) : ofDoc t.toDoc = .ok t :=
  ofDoc_toDoc_eq_ok_iff.2 ⟨_, h, by cases t; rfl⟩

end Template

theorem Doc.nat?_ofNat {n : Nat} (h : n < Nat.pow 2 64) : (ofNat n).nat? = some n := by
  have nonnegative : (0 : Int) ≤ n ∧ (n : Int) < Nat.pow 2 64 := by omega
  rw [ofNat, ofInt, if_pos nonnegative, nat?, Int.toNat_natCast]
  exact congrArg some (UInt64.toNat_ofNat_of_lt' h)

theorem InvertedLambda.ofDoc?_label (policy : InvertedLambda) :
    ofDoc? (.str policy.label) = some policy := by
  cases policy <;> rfl

/-- The depth is a number of 64 bits. -/
def Config.Fits (c : Config) : Prop := c.maxDepth < Nat.pow 2 64

instance (c : Config) : Decidable c.Fits := inferInstanceAs (Decidable (c.maxDepth < Nat.pow 2 64))

namespace Config
variable {c : Config}

/-- The stored form has the three settings. -/
theorem record?_toDoc (c : Config) :
    c.toDoc.record? ["max_depth", "strict_variables", "inverted_lambda"] =
      some [some (.ofNat c.maxDepth), some (.bool c.strictVariables),
        some (.str c.invertedLambda.label)] := by
  unfold toDoc
  generalize Doc.ofNat c.maxDepth = depth
  rfl

theorem ofDoc?_toDoc (h : c.Fits) : ofDoc? c.toDoc = some c := by
  obtain ⟨depth, members, read⟩ : ∃ depth : Doc,
      c.toDoc.record? ["max_depth", "strict_variables", "inverted_lambda"] =
        some [some depth, some (.bool c.strictVariables), some (.str c.invertedLambda.label)] ∧
      depth.nat? = some c.maxDepth := ⟨_, c.record?_toDoc, Doc.nat?_ofNat h⟩
  rw [ofDoc?, members]
  simp only [Option.bind_eq_bind, Option.bind_some, Doc.withDefault?, read, Doc.bool?,
    InvertedLambda.ofDoc?_label]

end Config

namespace Catalog
variable {c : Catalog}

theorem ofEntries_toDoc (h : ∀ pair ∈ c, pair.2.Reread) :
    ofEntries (c.map fun (key, t) => (key, t.toDoc)) = .ok c := by
  induction c with
  | nil => rfl
  | cons pair rest ih =>
    obtain ⟨first, others⟩ := List.forall_mem_cons.1 h
    rw [List.map_cons, ofEntries, first.ofDoc_toDoc, ih others]
    rfl

theorem ofDoc_toDoc (sorted : Entries.Sorted c) (h : ∀ pair ∈ c, pair.2.Reread) :
    ofDoc c.toDoc = .ok c := by
  rw [toDoc, ofDoc, ofEntries_toDoc h]
  exact congrArg Except.ok sorted.ofList_eq

end Catalog

/-- Of a map with both members the settings are read first. -/
theorem Engine.ofDoc_map (templates config : Doc) :
    ofDoc (.map [("templates", templates), ("config", config)]) = do
      let config ← restoreConfig config
      let templates ← Catalog.ofDoc templates
      return ⟨templates, config⟩ := by
  have first : Entries.get? "config" [("templates", templates), ("config", config)] =
      some config := rfl
  have second : Entries.get? "templates" [("templates", templates), ("config", config)] =
      some templates := rfl
  simp only [ofDoc, first, second, Option.mapM_some]
  cases restoreConfig config <;> cases Catalog.ofDoc templates <;> rfl

theorem Engine.ofDoc_toDoc {e : Engine} (sorted : Entries.Sorted e.templates)
    (h : ∀ pair ∈ e.templates, pair.2.Reread) (fits : e.config.Fits) : ofDoc e.toDoc = .ok e := by
  rw [toDoc, ofDoc_map, restoreConfig, Config.ofDoc?_toDoc fits, Catalog.ofDoc_toDoc sorted h]
  rfl

end Mustache
