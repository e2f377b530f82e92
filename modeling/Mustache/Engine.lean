import Mustache.Dependencies.Walk
import Mustache.Renderer
import Mustache.Validation

/-! Named templates that include one another, kept with the settings they are rendered with. -/
namespace Mustache

structure Engine where
  templates : Catalog
  config : Config
  deriving Inhabited

namespace Engine
variable {σ : Type}

/-- An engine without templates. -/
def new (config : Config) : Engine := ⟨[], config⟩

def get? (e : Engine) (name : String) : Option Template := Entries.get? name e.templates

def contains (e : Engine) (name : String) : Bool := (e.get? name).isSome

/-- The registered names, in ascending order. -/
def names (e : Engine) : List String := Entries.keys e.templates

/-- Puts a template under a name, which also becomes its own name. -/
def put (e : Engine) (name : String) (t : Template) : Engine :=
  { e with templates := Entries.insert name (t.withName name) e.templates }

/-- Registers a template, and gives back the one it replaces. -/
def insert (e : Engine) (name : String) (t : Template) : Option Template × Engine :=
  (e.get? name, e.put name t)

/-- Reads a source and registers it under a name, new or not. -/
def reload (e : Engine) (name source : String) : Except Error Engine :=
  match Template.parse source with
  | .ok t => .ok (e.put name t)
  | .error error => .error (.parse error)

/-- Reads a source and registers it under a name that is not taken. -/
def add (e : Engine) (name source : String) : Except Error Engine :=
  if e.contains name then .error (.templateExists name) else e.reload name source

/-- Takes a template out and gives it back. -/
def remove (e : Engine) (name : String) : Option Template × Engine :=
  (e.get? name, { e with templates := Entries.erase name e.templates })

/-- Every template is a partial for the others. -/
def load (e : Engine) (name : String) : Except Error Template :=
  match e.get? name with
  | some t => .ok t
  | none => .error (.partialNotFound name)

def setup (e : Engine) (host : Host σ) : Setup σ := ⟨e.config, e.templates.load, host⟩

/-- Renders a registered template below its own name. -/
def render (e : Engine) (host : Host σ) (name : String) (data : Value) (state : σ) : Rendering σ :=
  match e.get? name with
  | some t => ((Renderer.start (e.setup host) data state).rootedAt name).run t.nodes
  | none => ⟨.error (.missingTemplate name), .start state⟩

/-- Renders a template that need not be registered, with partials from the engine. -/
def renderTemplate (e : Engine) (host : Host σ) (t : Template) (data : Value) (state : σ) :
    Rendering σ :=
  t.render (e.setup host) data state

/-- Every name that a registered template depends on. It does not follow itself. -/
def dependencies (e : Engine) (name : String) : Except Error Dependencies :=
  match e.get? name with
  | some t => .ok (t.dependencies (some e.templates) [name]).dependencies
  | none => .error (.missingTemplate name)

/-- The root names that a registered template uses and the data lacks. -/
def missing (e : Engine) (name : String) (data : Value) : List String :=
  match e.dependencies name with
  | .ok d => d.missingFrom data
  | .error _ => []

/-- Checks every branch of a registered template. -/
def validate (e : Engine) (name : String) : Except Error Unit :=
  match e.get? name with
  | some t => (t.validate e.templates.load e.config (.rooted name)).result
  | none => .error (.missingTemplate name)

end Engine

end Mustache
