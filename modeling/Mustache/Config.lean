/-! What a render may be told: how deep it nests, whether every variable must resolve, and what an
inverted section over a lambda does. -/
namespace Mustache

/-- An inverted section whose name resolves to a lambda fails, or treats the lambda as truthy and
skips its children, or treats it as falsey and renders them once. -/
inductive InvertedLambda
  | reject | truthy | falsey
  deriving DecidableEq, Inhabited

structure Config where
  maxDepth : Nat
  strictVariables : Bool
  invertedLambda : InvertedLambda
  deriving DecidableEq, Inhabited

/-- At most 128 levels, missing variables render as nothing, inverted lambdas fail. -/
def Config.standard : Config := ⟨128, false, .reject⟩

end Mustache
