import Mustache.Config
import Mustache.Doc

/-! Settings as documents. -/
namespace Mustache

def InvertedLambda.label : InvertedLambda → String
  | reject => "Reject"
  | truthy => "Truthy"
  | falsey => "Falsey"

def InvertedLambda.ofDoc? (doc : Doc) : Option InvertedLambda := do
  let (name, content) ← doc.variant?
  Doc.unit? content
  match name with
  | "Reject" => some reject
  | "Truthy" => some truthy
  | "Falsey" => some falsey
  | _ => none

def Config.toDoc (c : Config) : Doc :=
  .map [("max_depth", .ofNat c.maxDepth), ("strict_variables", .bool c.strictVariables),
    ("inverted_lambda", .str c.invertedLambda.label)]

/-- Reads a member of a record that falls back on a default when it is absent. -/
def Doc.withDefault? {α : Type} (fallback : α) (read : Doc → Option α) (doc : Option Doc) : Option α :=
  match doc with
  | none => some fallback
  | some doc => read doc

/-- Every setting that is absent has its standard value. -/
def Config.ofDoc? (doc : Doc) : Option Config := do
  match ← doc.record? ["max_depth", "strict_variables", "inverted_lambda"] with
  | [depth, strict, inverted] =>
    some {
      maxDepth := ← Doc.withDefault? Config.standard.maxDepth Doc.nat? depth
      strictVariables := ← Doc.withDefault? Config.standard.strictVariables Doc.bool? strict
      invertedLambda :=
        ← Doc.withDefault? Config.standard.invertedLambda InvertedLambda.ofDoc? inverted }
  | _ => none

end Mustache
