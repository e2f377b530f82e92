import Mustache.Text.Search
import Mustache.Value

/-! The stack of data frames that names are resolved against. -/
namespace Mustache

/-- The segments of a dotted name, cut at every dot. -/
def nameSegments (name : String) : String × List String :=
  let (first, others) := Text.cutAt '.' name.toList
  (String.ofList first, others.map String.ofList)

/-- The root data and the frames pushed on it, innermost first. -/
structure Context where
  root : Value
  inner : List Value
  deriving Inhabited

namespace Context

def ofRoot (root : Value) : Context := ⟨root, []⟩

/-- All frames, from the top outward. -/
def frames (c : Context) : List Value := c.inner ++ [c.root]

def push (c : Context) (frame : Value) : Context := { c with inner := frame :: c.inner }

/-- Removes the top frame. The root is never removed. -/
def pop (c : Context) : Context := { c with inner := c.inner.tail }

def depth (c : Context) : Nat := c.inner.length + 1

def top (c : Context) : Value := c.inner.headD c.root

/-- A single dot is the top frame. Otherwise the nearest frame that holds the first segment wins,
and the further segments must resolve strictly inside what it holds. -/
def resolve? (c : Context) (name : String) : Option Value :=
  if name = "." then some c.top
  else
    let (first, others) := nameSegments name
    (c.frames.findSome? (Value.get? first)).bind fun value => value.descend? others

@[simp] theorem pop_push (c : Context) (frame : Value) : (c.push frame).pop = c := rfl

@[simp] theorem top_push (c : Context) (frame : Value) : (c.push frame).top = frame := rfl

@[simp] theorem depth_push (c : Context) (frame : Value) : (c.push frame).depth = c.depth + 1 := rfl

@[simp] theorem frames_push (c : Context) (frame : Value) :
    (c.push frame).frames = frame :: c.frames := rfl

end Context

end Mustache
