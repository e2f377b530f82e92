import Mustache.Renderer

/-! A renderer that keeps its surroundings in place: frames, scopes and names are pushed and popped,
levels are counted up and down, the indent is lengthened and cut back, and the output is set aside
while the text of a lambda is captured. Nothing is handed down but the nodes. -/
namespace Mustache

/-- Everything a render changes in place. -/
structure InPlace (σ : Type) where
  context : Context
  overrides : Overrides
  path : InclusionPath
  depth : Nat
  indent : String
  page : Page
  requests : List Request
  host : σ

namespace InPlace
variable {σ α : Type}

/-- The text written so far. -/
def output (m : InPlace σ) : String := m.page.text

/-- A step of the renderer. One that fails keeps what it has done. -/
abbrev Step (σ α : Type) := EStateM Error (InPlace σ) α

/-- Runs a step between two changes of the state. The second is made also if the step fails. -/
def between (enter leave : InPlace σ → InPlace σ) (step : Step σ α) : Step σ α := fun m =>
  match step (enter m) with
  | .ok a after => .ok a (leave after)
  | .error error after => .error error (leave after)

/-- Runs a step one level down. -/
def deeper (limit : Nat) (step : Step σ Unit) : Step σ Unit := fun m =>
  if limit ≤ m.depth then .error (.depthExceeded limit) m
  else between (fun m => { m with depth := m.depth + 1 }) (fun m => { m with depth := m.depth - 1 })
    step m

/-- Runs a step one level down with a frame on top. -/
def withFrame (limit : Nat) (frame : Value) (step : Step σ Unit) : Step σ Unit :=
  between (fun m => { m with context := m.context.push frame })
    (fun m => { m with context := m.context.pop }) (deeper limit step)

/-- Sets the page and the indent aside, runs a step and returns the text it wrote. -/
def capture (step : Step σ Unit) : Step σ String := fun outer =>
  let resume (m : InPlace σ) : InPlace σ := { m with page := outer.page, indent := outer.indent }
  match step { outer with page := { outer.page with text := "" }, indent := "" } with
  | .ok _ inner => .ok inner.output (resume inner)
  | .error error inner => .error error (resume inner)

/-- Writes a piece under the indent in force. -/
def write (piece : String → Write) : Step σ Unit :=
  modify fun m => { m with page := m.page.put (piece m.indent) }

def checkCancelled (setup : Setup σ) : Step σ Unit := do
  if setup.host.cancelled (← get).host then throw .cancelled

def invoke (setup : Setup σ) (name : String) (lambda : Lambda) (argument : String) :
    Step σ String := fun m =>
  let (result, host) := setup.host.invoke lambda argument m.host
  let after := { m with requests := .call lambda argument :: m.requests, host }
  match result with
  | .ok text => .ok text after
  | .error message => .error (.lambdaFailed name message) after

def target (setup : Setup σ) (i : Inclusion) : Step σ Template := fun m =>
  match i.target with
  | some template => .ok template m
  | none =>
    let after := { m with requests := .load i.name :: m.requests }
    match setup.loader i.name with
    | some template => .ok template after
    | none => .error (.partialNotFound i.name) after

/-- Puts a partial on the path and its indent behind the one in force. An indent opens a line. -/
def entered (i : Inclusion) (path : InclusionPath) (m : InPlace σ) : InPlace σ :=
  if i.indent.isEmpty then { m with path }
  else { m with path, indent := m.indent ++ i.indent, page := m.page.put .openLine }

/-- Cuts the indent back to a length and takes the last name off the path. -/
def left (width : Nat) (m : InPlace σ) : InPlace σ :=
  { m with path := m.path.exit, indent := String.ofList (m.indent.toList.take width) }

/-- Runs a step one level down inside of a partial. -/
def inside (limit : Nat) (i : Inclusion) (step : Step σ Unit) : Step σ Unit := fun m =>
  match m.path.enter i.name with
  | .error error => .error error m
  | .ok path => between (entered i path) (left m.indent.length) (deeper limit step) m

/-- Runs a step one level down with only the scopes in force that enclose an override, and puts the
others back. -/
def detached (limit : Nat) (enclosing : Overrides) (step : Step σ Unit) : Step σ Unit := fun m =>
  let (inner, outer) := m.overrides.detach enclosing.size
  between (fun m => { m with overrides := outer })
    (fun m => { m with overrides := m.overrides.restore inner }) (deeper limit step) m

/-- Runs a step with one more scope in force. -/
def withScope (scope : OverrideScope) (step : Step σ α) : Step σ α :=
  between (fun m => { m with overrides := m.overrides.push scope })
    (fun m => { m with overrides := (m.overrides.pop?.map Prod.snd).getD m.overrides }) step

section Handlers
variable (setup : Setup σ) (accept : List Node → Step σ Unit)

def renderReturned (text : String) (d : Delimiters) : Step σ Unit :=
  match Template.parseWith d text with
  | .ok template => deeper setup.config.maxDepth (accept template.nodes)
  | .error error => throw (.parse error)

def interpolated (name : String) : Value → Step σ String
  | .lambda l => do
    let returned ← invoke setup name l ""
    capture (renderReturned setup accept returned .standard)
  | value =>
    match value.text? with
    | some text => pure text
    | none => throw (.conversion name value.kind)

def visitInterpolation (name : String) (escaped : Bool) : Step σ Unit := fun m =>
  match m.context.resolve? name with
  | none => if setup.config.strictVariables then .error (.missingVariable name) m else .ok () m
  | some value =>
    (do
      let text ← interpolated setup accept name value
      write fun indent => .value indent text (if escaped then Text.escapeHtml text else text)) m

def visitInverted (s : Section) : Shape → Step σ Unit
  | .falsey => deeper setup.config.maxDepth (accept s.children)
  | .scalar | .sequence => pure ()
  | .renderable =>
    match setup.config.invertedLambda with
    | .reject => throw (.invertedLambda s.name)
    | .truthy => pure ()
    | .falsey => deeper setup.config.maxDepth (accept s.children)

def visitUpright (s : Section) : Value → Step σ Unit
  | .list items => items.forM fun item => withFrame setup.config.maxDepth item (accept s.children)
  | .lambda l => do
    let returned ← invoke setup s.name l s.body.text
    renderReturned setup accept returned s.body.delimiters
  | value =>
    if value.shape = .falsey then pure ()
    else withFrame setup.config.maxDepth value (accept s.children)

def visitSection (s : Section) : Step σ Unit := fun m =>
  match m.context.resolve? s.name with
  | none => if s.inverted then visitInverted setup accept s .falsey m else .ok () m
  | some value =>
    if s.inverted then visitInverted setup accept s value.shape m
    else visitUpright setup accept s value m

def visitInclusion (i : Inclusion) : Step σ Unit := do
  let template ← target setup i
  inside setup.config.maxDepth i (accept template.nodes)

def visitBlock (b : Block) : Step σ Unit := fun m =>
  match m.overrides.resolve? b.name with
  | none => deeper setup.config.maxDepth (accept b.children) m
  | some (override, enclosing) =>
    detached setup.config.maxDepth enclosing (accept override.children) m

def visit (node : Node) : Step σ Unit := do
  checkCancelled setup
  match node with
  | .text text => write fun indent => .text indent text
  | .interpolation name escaped => visitInterpolation setup accept name escaped
  | .sect s => visitSection setup accept s
  | .inclusion i => visitInclusion setup accept i
  | .parent i overrides => withScope overrides (visitInclusion setup accept i)
  | .block b => visitBlock setup accept b

end Handlers

/-- Renders nodes in order up to the first failure. The counter is checked at each way down, so no
step is ever taken below the last of the `room` levels. -/
def acceptAll (setup : Setup σ) : (room : Nat) → List Node → Step σ Unit
  | 0, nodes => nodes.forM (visit setup fun _ => pure ())
  | room + 1, nodes => nodes.forM (visit setup (acceptAll setup room))

/-- Renders nodes with the levels that are left. -/
def accept (setup : Setup σ) (m : InPlace σ) (nodes : List Node) :
    Except Error Unit × InPlace σ :=
  match acceptAll setup (setup.config.maxDepth - m.depth) nodes m with
  | .ok _ after => (.ok (), after)
  | .error error after => (.error error, after)

/-- A renderer with the same surroundings that has written and asked for the same. -/
def ofRenderer (r : Renderer σ) : InPlace σ :=
  ⟨r.env.context, r.env.overrides, r.env.path, r.depth, r.env.indent, layout r.state.writes,
    r.state.requests, r.state.host⟩

end InPlace

end Mustache
