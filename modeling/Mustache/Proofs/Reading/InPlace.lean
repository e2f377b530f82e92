import Mustache.Assembly
import Mustache.Proofs.Returns

/-! A reader that changes its own state: an offset goes forward over the source, lines are counted
as newlines are passed, and new delimiters take the place of the old ones, whatever they are. It goes
round once for each tag, without a bound on how often, and calls itself at each opening tag. -/
namespace Mustache

/-- Everything that reading changes in place. The offset of the line counts bytes, as the one of the
reader does. -/
structure Reader where
  pos : Nat
  line : Nat
  lineStart : Nat
  delimiters : Delimiters
  deriving DecidableEq

/-- Whether a tag of this kind takes its line with it when nothing else is on it. -/
def Sigil.canStandAlone : Sigil → Bool
  | escaped | raw => false
  | opening _ | closing | inclusion | comment | delimiters => true

/-- What a tag of a given kind holds, without the white space around it. Only names are checked. -/
def Sigil.content (sigil : Sigil) (text : List Char) : Except ParseErrorKind String :=
  match sigil with
  | comment => .ok (String.ofList (Text.trim text))
  | delimiters =>
    if text.getLast? = some '=' then .ok (String.ofList (Text.trim text.dropLast))
    else .error (.invalidDelimiters (String.ofList text))
  | escaped | raw | opening _ | closing | inclusion => checkName text

/-- Two words that hold no equals sign. -/
def Delimiters.ofContent? (content : String) : Option Delimiters :=
  match Text.words content.toList with
  | [opening, closing] =>
    if opening.contains '=' || closing.contains '=' then none
    else some ⟨String.ofList opening, String.ofList closing⟩
  | _ => none

namespace Reader

/-- A step of the reader. One that fails keeps what it has done. -/
abbrev Step (α : Type) := EStateM ParseError Reader α

/-- A reader that has not begun. -/
def start (d : Delimiters) : Reader := ⟨0, 1, 0, d⟩

/-- Passes one character. A line begins behind a newline. -/
def pass (m : Reader) (c : Char) : Reader :=
  if c = '\n' then { m with pos := m.pos + 1, line := m.line + 1, lineStart := m.pos + 1 }
  else { m with pos := m.pos + c.utf8Size }

/-- An error at the offset of the reader. -/
def errorHere (m : Reader) (kind : ParseErrorKind) : ParseError :=
  ⟨m.line, m.pos - m.lineStart + 1, kind⟩

section Source
variable (input : List Char)

/-- What is still to be read. -/
def rest (m : Reader) : List Char := (Text.dropBytes? m.pos input).getD []

/-- An error at an earlier offset, whose line is looked for again. -/
def errorAt (offset : Nat) (kind : ParseErrorKind) : ParseError :=
  let before := (Text.takeBytes? offset input).getD input
  let lineStart := Text.byteLength (before.reverse.dropWhile (· != '\n'))
  ⟨before.count '\n' + 1, offset - lineStart + 1, kind⟩

/-- Moves to an offset, but not behind the end, and counts the lines on the way. -/
def advanceTo (target : Nat) (m : Reader) : Reader :=
  let target := min target (Text.byteLength input)
  let skipped := (Text.slice? m.pos target input).getD []
  { skipped.foldl pass m with pos := target }

def advanceBy (bytes : Nat) (m : Reader) : Reader := m.advanceTo input (m.pos + bytes)

def advanceToEnd (m : Reader) : Reader := m.advanceTo input (Text.byteLength input)

/-- Takes the text in front of `close`, and passes both. -/
def takeUntil (close : List Char) : Step (List Char) := fun m =>
  let rest := m.rest input
  match Text.occurrence? close rest with
  | none =>
    let m := m.advanceToEnd input
    .error (m.errorHere (.endBefore (String.ofList close))) m
  | some n =>
    let text := rest.take n
    .ok text (m.advanceBy input (Text.byteLength text + Text.byteLength close))

/-- Reads the tag whose open delimiter stands here. -/
def readTag : Step (Sigil × String) := fun m =>
  let tagStart := m.pos
  let m := m.advanceBy input (Text.byteLength m.delimiters.opening.toList)
  let (sigil, width, close) := Sigil.ofRest m.delimiters (m.rest input)
  match takeUntil input close (m.advanceBy input width) with
  | .error error m => .error error m
  | .ok text m =>
    match sigil.content text with
    | .error kind => .error (errorAt input tagStart kind) m
    | .ok content => .ok (sigil, content) m

/-- The offset behind the line of a tag, if only blanks stand on it in front of the tag, and only
blanks behind it. -/
def lineStop? (lineStart tagStart : Nat) (m : Reader) : Option Nat :=
  match Text.slice? lineStart tagStart input with
  | none => none
  | some front =>
    if front.all Text.isBlank then (Cursor.lineEnd? (m.rest input)).map (m.pos + ·) else none

/-- What there is to do after a tag: to return the nodes of the level and the end of its body, to go
on with these nodes, or to read the level inside of the tag. -/
inductive Turn
  | done (nodes : List Node) (bodyStop : Nat)
  | goOn (nodes : List Node)
  | inside (frame : Frame)

/-- Acts on a tag that has been passed, which starts at one offset and ends a body at another. -/
def act (opened : Option String) (nodes : List Node) (tagStart bodyStop : Nat) (indent : String)
    (sigil : Sigil) (content : String) : Step Turn := fun m =>
  match sigil with
  | .escaped => .ok (.goOn (.interpolation content true :: nodes)) m
  | .raw => .ok (.goOn (.interpolation content false :: nodes)) m
  | .inclusion => .ok (.goOn (.inclusion ⟨content, indent, none⟩ :: nodes)) m
  | .comment => .ok (.goOn nodes) m
  | .delimiters =>
    match Delimiters.ofContent? content with
    | some delimiters => .ok (.goOn nodes) { m with delimiters }
    | none => .error (errorAt input tagStart (.invalidDelimiters content)) m
  | .opening opener => .ok (.inside ⟨opener, content, m.pos, m.delimiters, nodes⟩) m
  | .closing =>
    match opened with
    | none => .error (errorAt input tagStart (.strayClosing content)) m
    | some name =>
      if name = content then .ok (.done nodes.reverse bodyStop) m
      else .error (errorAt input tagStart (.mismatchedClosing name content)) m

/-- Takes the rest of the line of a tag that is alone on it, and acts on the tag. -/
def settle (opened : Option String) (nodes : List Node) (lineStart tagStart : Nat) (sigil : Sigil)
    (content : String) : Step Turn := fun m =>
  match if sigil.canStandAlone then m.lineStop? input lineStart tagStart else none with
  | none => act input opened nodes tagStart tagStart "" sigil content m
  | some stop =>
    let indent := String.ofList ((Text.slice? lineStart tagStart input).getD [])
    act input opened (Node.trimIndent indent nodes) tagStart lineStart indent sigil content
      (m.advanceTo input stop)

/-- One iteration, up to the level inside of a tag: the text in front of the next tag, and the tag.
The nodes that the level has already are given, newest first. -/
def turn (opened : Option String) (nodes : List Node) : Step Turn := fun m =>
  let rest := m.rest input
  match Text.occurrence? m.delimiters.opening.toList rest with
  | none =>
    let m := m.advanceToEnd input
    match opened with
    | some name =>
      .error (m.errorHere
        (.endBefore (m.delimiters.opening ++ "/" ++ name ++ m.delimiters.closing))) m
    | none => .ok (.done (Node.pushText (String.ofList rest) nodes).reverse m.pos) m
  | some n =>
    let lead := rest.take n
    let m := m.advanceBy input (Text.byteLength lead)
    match readTag input m with
    | .error error m' => .error error m'
    | .ok (sigil, content) m' =>
      settle input opened (Node.pushText (String.ofList lead) nodes) m.lineStart m.pos sigil content
        m'

end Source

/-- An iteration that is over: the reader before it, the reader after it, and whether it was the
last one of its level. -/
structure Iteration where
  first : Reader
  last : Reader
  returns : Bool

/-- A reader, and the iterations that are over, newest first. No step looks at them. -/
abbrev Logged := Reader × List Iteration

/-- One call: an iteration on the level of a tag. It calls itself for the level inside of an opening
tag, and for the iterations behind it. -/
def round (source : String) : Program (Option String × List Node) Logged
    (EStateM.Result ParseError Logged (List Node × Nat)) := fun again (opened, nodes) (m, log) =>
  match turn source.toList opened nodes m with
  | .error error m' => .error error (m', ⟨m, m', true⟩ :: log)
  | .ok (.done nodes bodyStop) m' => .ok (nodes, bodyStop) (m', ⟨m, m', true⟩ :: log)
  | .ok (.goOn nodes) m' => again (opened, nodes) (m', ⟨m, m', false⟩ :: log)
  | .ok (.inside frame) m' =>
    match again (some frame.name, []) (m', log) with
    | .error error (m', log) => .error error (m', ⟨m, m', true⟩ :: log)
    | .ok (children, bodyStop) (m', log) =>
      again (opened, frame.close source bodyStop children :: frame.before)
        (m', ⟨m, m', false⟩ :: log)

end Reader

end Mustache
