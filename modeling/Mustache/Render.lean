import Mustache.Assembly
import Mustache.Render.State
import Mustache.Text.Html

/-! Rendering. Each kind of node has a handler; a handler that goes one level down calls `deeper`,
so that the nesting allowed is the fuel of the whole. -/
namespace Mustache.Render
variable {σ : Type}

/-- Renders nodes one level down. -/
abbrev Deeper (σ : Type) := Env → List Node → RenderM σ Unit

def write (piece : Write) : RenderM σ Unit :=
  modify fun s => { s with writes := piece :: s.writes }

/-- Every handler begins by asking whether the render has been cancelled. -/
def checkCancelled (setup : Setup σ) : RenderM σ Unit := do
  if setup.host.cancelled (← get).host then throw .cancelled

/-- Calls a lambda on behalf of a name. -/
def invoke (setup : Setup σ) (name : String) (lambda : Lambda) (argument : String) :
    RenderM σ String := fun s =>
  let (result, host) := setup.host.invoke lambda argument s.host
  let after := { s with requests := .call lambda argument :: s.requests, host }
  match result with
  | .ok text => .ok text after
  | .error message => .error (.lambdaFailed name message) after

/-- Looks a template up. -/
def load (setup : Setup σ) (name : String) : RenderM σ Template := fun s =>
  let after := { s with requests := .load name :: s.requests }
  match setup.loader name with
  | some template => .ok template after
  | none => .error (.partialNotFound name) after

/-- Runs a step on an empty page and returns its text instead of writing it. -/
def capture (step : RenderM σ Unit) : RenderM σ String := fun s =>
  match step { s with writes := [] } with
  | .ok _ inner => .ok inner.output { inner with writes := s.writes }
  | .error error inner => .error error { inner with writes := s.writes }

/-- Reads what a lambda returned as a template and renders it in its place. -/
def renderReturned (deeper : Deeper σ) (env : Env) (text : String) (d : Delimiters) :
    RenderM σ Unit :=
  match Template.parseWith d text with
  | .ok template => deeper env template.nodes
  | .error error => throw (.parse error)

/-- The text of a variable. What a lambda returns is rendered first, without any indent. -/
def interpolated (setup : Setup σ) (deeper : Deeper σ) (env : Env) (name : String) :
    Value → RenderM σ String
  | .lambda l => do
    let returned ← invoke setup name l ""
    capture (renderReturned deeper { env with indent := "" } returned .standard)
  | value =>
    match value.text? with
    | some text => pure text
    | none => throw (.conversion name value.kind)

def visitInterpolation (setup : Setup σ) (deeper : Deeper σ) (env : Env) (name : String)
    (escaped : Bool) : RenderM σ Unit :=
  match env.context.resolve? name with
  | none => if setup.config.strictVariables then throw (.missingVariable name) else pure ()
  | some value => do
    let text ← interpolated setup deeper env name value
    write (.value env.indent text (if escaped then Text.escapeHtml text else text))

/-- The children of an inverted section stand for a missing or falsey value. -/
def visitInverted (setup : Setup σ) (deeper : Deeper σ) (env : Env) (s : Section)
    (shape : Shape) : RenderM σ Unit :=
  match shape with
  | .falsey => deeper env s.children
  | .scalar | .sequence => pure ()
  | .renderable =>
    match setup.config.invertedLambda with
    | .reject => throw (.invertedLambda s.name)
    | .truthy => pure ()
    | .falsey => deeper env s.children

/-- A list repeats the children over its items, a lambda gets the unparsed body, any other value
that is not falsey becomes the frame of the children. -/
def visitUpright (setup : Setup σ) (deeper : Deeper σ) (env : Env) (s : Section) :
    Value → RenderM σ Unit
  | .list items => items.forM fun item => deeper (env.pushFrame item) s.children
  | .lambda l => do
    let returned ← invoke setup s.name l s.body.text
    renderReturned deeper env returned s.body.delimiters
  | value =>
    if value.shape = .falsey then pure () else deeper (env.pushFrame value) s.children

def visitSection (setup : Setup σ) (deeper : Deeper σ) (env : Env) (s : Section) :
    RenderM σ Unit :=
  match env.context.resolve? s.name with
  | none => if s.inverted then visitInverted setup deeper env s .falsey else pure ()
  | some value =>
    if s.inverted then visitInverted setup deeper env s value.shape
    else visitUpright setup deeper env s value

/-- Renders the template of a partial in its place. -/
def visitInclusion (setup : Setup σ) (deeper : Deeper σ) (env : Env) (i : Inclusion) :
    RenderM σ Unit := do
  let template ← match i.target with
    | some template => pure template
    | none => load setup i.name
  match env.path.enter i.name with
  | .error error => throw error
  | .ok path =>
    if i.indent.isEmpty then deeper { env with path } template.nodes
    else do
      write .openLine
      deeper { env with path, indent := env.indent ++ i.indent } template.nodes

/-- An override renders where its block stands, but sees only the scopes around its own, so that it
cannot resolve to itself. -/
def visitBlock (deeper : Deeper σ) (env : Env) (b : Block) : RenderM σ Unit :=
  match env.overrides.resolve? b.name with
  | none => deeper env b.children
  | some (override, enclosing) => deeper { env with overrides := enclosing } override.children

/-- Renders one node. -/
def visit (setup : Setup σ) (deeper : Deeper σ) (env : Env) (node : Node) : RenderM σ Unit := do
  checkCancelled setup
  match node with
  | .text text => write (.text env.indent text)
  | .interpolation name escaped => visitInterpolation setup deeper env name escaped
  | .sect s => visitSection setup deeper env s
  | .inclusion i => visitInclusion setup deeper env i
  | .parent i overrides =>
    visitInclusion setup deeper { env with overrides := env.overrides.push overrides } i
  | .block b => visitBlock deeper env b

/-- Goes one level down, with `room` levels left. -/
def descend (setup : Setup σ) : (room : Nat) → Deeper σ
  | 0 => fun _ _ => throw (.depthExceeded setup.config.maxDepth)
  | room + 1 => fun env nodes => nodes.forM (visit setup (descend setup room) env)

/-- Renders nodes in order up to the first failure, with `room` levels left below them. -/
def visitAll (setup : Setup σ) (room : Nat) (env : Env) (nodes : List Node) : RenderM σ Unit :=
  nodes.forM (visit setup (descend setup room) env)

end Mustache.Render
