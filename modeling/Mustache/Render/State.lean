import Mustache.Catalog
import Mustache.Config
import Mustache.Context
import Mustache.Error
import Mustache.InclusionPath
import Mustache.Overrides
import Mustache.Render.Layout

/-! What a render is given, what it knows at a node, and what it leaves behind. -/
namespace Mustache

/-- The world a render calls into: it runs lambdas and may ask for cancellation. Its state is
whatever the lambdas remember. -/
structure Host (σ : Type) where
  invoke : Lambda → String → σ → Except String String × σ
  cancelled : σ → Bool

/-- What stays fixed during a render. -/
structure Setup (σ : Type) where
  config : Config
  loader : Loader
  host : Host σ

/-- What is in force at a node: the frames names resolve against, the overrides, the partials being
rendered, and the indent they have added up. -/
structure Env where
  context : Context
  overrides : Overrides
  path : InclusionPath
  indent : String
  deriving Inhabited

/-- Something a render asked for. -/
inductive Request
  | call (lambda : Lambda) (argument : String)
  | load (name : String)
  deriving DecidableEq

/-- What a render has written and asked for so far, newest first, and the state of its host. -/
structure RenderState (σ : Type) where
  writes : List Write
  requests : List Request
  host : σ

/-- A step of a render. A step that fails keeps what it has done. -/
abbrev RenderM (σ : Type) := EStateM Error (RenderState σ)

def Env.ofData (data : Value) : Env := ⟨.ofRoot data, .empty, .empty, ""⟩

def Env.pushFrame (env : Env) (frame : Value) : Env :=
  { env with context := env.context.push frame }

namespace RenderState
variable {σ : Type}

def start (host : σ) : RenderState σ := ⟨[], [], host⟩

/-- The text written so far. -/
def output (s : RenderState σ) : String := (layout s.writes).text

/-- The calls made so far, oldest first. -/
def calls (s : RenderState σ) : List (Lambda × String) :=
  s.requests.reverse.filterMap fun
    | .call lambda argument => some (lambda, argument)
    | .load _ => none

/-- The names looked up so far, oldest first. -/
def loads (s : RenderState σ) : List String :=
  s.requests.reverse.filterMap fun
    | .call _ _ => none
    | .load name => some name

end RenderState

end Mustache
