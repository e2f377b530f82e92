import Mustache.Node
import Mustache.Scan

/-! The tree that grows out of the segments of a source: open tags nest, closing tags complete a
node, text on both sides of a vanished tag becomes one node. -/
namespace Mustache

/-- An open tag, and the nodes in front of it on its own level, newest first. -/
structure Frame where
  opener : Opener
  name : String
  bodyStart : Nat
  delimiters : Delimiters
  before : List Node

/-- A tree under construction: the open tags, innermost first, and the nodes of the innermost level,
newest first. -/
structure Assembly where
  frames : List Frame
  nodes : List Node

/-- Adds text to a level, joined to the text that is newest there. -/
def Node.pushText (text : String) (nodes : List Node) : List Node :=
  if text.isEmpty then nodes
  else match nodes with
    | .text last :: rest => .text (last ++ text) :: rest
    | _ => .text text :: nodes

/-- Takes an indent back from the end of the newest text, and the text itself if nothing is left. -/
def Node.trimIndent (indent : String) (nodes : List Node) : List Node :=
  if indent.isEmpty then nodes
  else match nodes with
    | .text last :: rest =>
      let kept := last.toList.take (last.toList.length - indent.toList.length)
      if kept.isEmpty then rest else .text (String.ofList kept) :: rest
    | _ => nodes

/-- The blocks among the children of a partial. Nothing else there means anything. -/
def Node.block? : Node → Option Block
  | .block b => some b
  | .text _ | .interpolation _ _ | .sect _ | .inclusion _ | .parent _ _ => none

/-- The node that a closing tag completes. -/
def Frame.close (source : String) (f : Frame) (bodyStop : Nat) (children : List Node) : Node :=
  match f.opener with
  | .sect inverted =>
    .sect ⟨f.name, inverted, ⟨source, f.bodyStart, bodyStop, f.delimiters⟩, children⟩
  | .parent => .parent (.named f.name) (children.filterMap Node.block?)
  | .block => .block ⟨f.name, children⟩

namespace Assembly

def empty : Assembly := ⟨[], []⟩

/-- Acts on a tag, once the text in front of it is in place. -/
def addTag (source : String) (a : Assembly) (tag : Tag) : Except ParseError Assembly :=
  match tag.directive with
  | .interpolation name escaped => .ok { a with nodes := .interpolation name escaped :: a.nodes }
  | .inclusion name => .ok { a with nodes := .inclusion ⟨name, tag.indent, none⟩ :: a.nodes }
  | .comment => .ok a
  | .delimiters _ => .ok a
  | .opening opener name =>
    .ok ⟨⟨opener, name, tag.stop.offset, tag.delimiters, a.nodes⟩ :: a.frames, []⟩
  | .closing name =>
    match a.frames with
    | [] => .error (.at tag.start (.strayClosing name))
    | f :: outer =>
      if f.name = name then
        .ok ⟨outer, f.close source tag.bodyStop a.nodes.reverse :: f.before⟩
      else .error (.at tag.start (.mismatchedClosing f.name name))

/-- Adds the text of a segment, without the indent that its tag takes away, and acts on the tag. -/
def add (source : String) (a : Assembly) (segment : Segment) : Except ParseError Assembly :=
  addTag source
    { a with
      nodes := Node.trimIndent segment.tag.indent (Node.pushText segment.lead a.nodes) }
    segment.tag

/-- Completes the tree. A tag that is still open is a fault at the end of the source. -/
def finish (a : Assembly) : Ending → Except ParseError (List Node)
  | .failed error => .error error
  | .finished text place delimiters =>
    match a.frames with
    | [] => .ok (Node.pushText text a.nodes).reverse
    | f :: _ =>
      .error (.at place (.endBefore (delimiters.opening ++ "/" ++ f.name ++ delimiters.closing)))

end Assembly

/-- The tree of a flat reading. -/
def Scan.assemble (source : String) (s : Scan) : Except ParseError (List Node) := do
  let a ← s.segments.foldlM (Assembly.add source) .empty
  a.finish s.ending

/-- The nodes of a source. -/
def parseNodes (source : String) (d : ValidDelimiters) : Except ParseError (List Node) :=
  (scan source d).assemble source

namespace Template

/-- Reads a source that starts with the given delimiters. -/
def parseWith (d : Delimiters) (source : String) : Except ParseError Template :=
  if h : d.Valid then (parseNodes source ⟨d, h⟩).map fun nodes => ⟨none, source, nodes⟩
  else .error (.at .start (.invalidDelimiters (d.opening ++ " " ++ d.closing)))

/-- Reads a source that starts with the standard delimiters. -/
def parse (source : String) : Except ParseError Template := parseWith .standard source

end Template

end Mustache
