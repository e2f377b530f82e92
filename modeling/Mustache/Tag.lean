import Mustache.Delimiters
import Mustache.Error

/-! Tags: what the character behind the open delimiter makes of one, and what its content says. -/
namespace Mustache

/-- What begins a nested list of nodes. -/
inductive Opener
  | sect (inverted : Bool)
  | parent
  | block
  deriving DecidableEq, Inhabited

/-- The kind of a tag, before its content is read. -/
inductive Sigil
  | escaped
  | raw
  | opening (opener : Opener)
  | closing
  | inclusion
  | comment
  | delimiters
  deriving DecidableEq

/-- What a tag says. -/
inductive Directive
  | interpolation (name : String) (escaped : Bool)
  | opening (opener : Opener) (name : String)
  | closing (name : String)
  | inclusion (name : String)
  | comment
  | delimiters (next : ValidDelimiters)
  deriving DecidableEq

namespace Sigil

/-- The characters that mark a kind. Any other character begins an escaped variable. -/
def ofChar? : Char → Option Sigil
  | '#' => some (.opening (.sect false))
  | '^' => some (.opening (.sect true))
  | '<' => some (.opening .parent)
  | '$' => some (.opening .block)
  | '/' => some .closing
  | '>' => some .inclusion
  | '!' => some .comment
  | '&' => some .raw
  | '=' => some .delimiters
  | _ => none

/-- What follows the open delimiter: the kind of the tag, how many characters mark it, and the mark
that ends the tag. A third brace behind the two standard ones asks for a third one at the end. -/
def ofRest (d : Delimiters) : List Char → Sigil × Nat × List Char
  | [] => (.escaped, 0, d.closing.toList)
  | c :: _ =>
    if d.opening = Delimiters.standard.opening ∧ c = '\x7b' then (.raw, 1, '\x7d' :: d.closing.toList)
    else match ofChar? c with
      | some sigil => (sigil, 1, d.closing.toList)
      | none => (.escaped, 0, d.closing.toList)

end Sigil

/-- A name is one word. -/
def checkName (content : List Char) : Except ParseErrorKind String :=
  let name := Text.trim content
  if name.isEmpty then .error .nameMissing
  else if name.any Text.isWhiteSpace then .error (.nameBroken (String.ofList name))
  else .ok (String.ofList name)

/-- New delimiters are two words and an equals sign at the end. -/
def checkDelimiters (content : List Char) : Except ParseErrorKind ValidDelimiters :=
  match content.getLast? with
  | some '=' =>
    let inner := Text.trim content.dropLast
    match Delimiters.ofWords? inner with
    | some d => .ok d
    | none => .error (.invalidDelimiters (String.ofList inner))
  | _ => .error (.invalidDelimiters (String.ofList content))

namespace Directive

/-- Reads the content of a tag of a given kind. -/
def ofContent (sigil : Sigil) (content : List Char) : Except ParseErrorKind Directive :=
  match sigil with
  | .escaped => (checkName content).map (.interpolation · true)
  | .raw => (checkName content).map (.interpolation · false)
  | .opening opener => (checkName content).map (.opening opener)
  | .closing => (checkName content).map .closing
  | .inclusion => (checkName content).map .inclusion
  | .comment => .ok .comment
  | .delimiters => (checkDelimiters content).map .delimiters

/-- Whether the tag takes its line with it when nothing else is on it. A variable always leaves
something behind, so it never does. -/
def canStandAlone : Directive → Bool
  | interpolation _ _ => false
  | opening _ _ | closing _ | inclusion _ | comment | delimiters _ => true

/-- The delimiters in force behind the tag. -/
def delimitersAfter (current : ValidDelimiters) : Directive → ValidDelimiters
  | delimiters next => next
  | interpolation _ _ | opening _ _ | closing _ | inclusion _ | comment => current

end Directive

/-- A tag of a source: where it starts, where the text behind it goes on, whether it stands alone on
its line, the blanks then removed in front of it, and the delimiters it was read with. -/
structure Tag where
  directive : Directive
  start : Position
  stop : Position
  alone : Bool
  indent : String
  delimiters : Delimiters
  deriving DecidableEq

/-- Where a body ends that this tag closes: in front of the blanks that go with it. -/
def Tag.bodyStop (t : Tag) : Nat := t.start.offset - Text.byteLength t.indent.toList

end Mustache
