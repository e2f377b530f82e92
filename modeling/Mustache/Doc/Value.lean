import Mustache.Doc
import Mustache.Value

/-! Values as documents: a lambda is written as null, all else reads back as it was. -/
namespace Mustache

mutual

def Value.toDoc : Value → Doc
  | .null => .null
  | .bool b => .bool b
  | .int n => .ofInt n.toInt
  | .float x => .float x
  | .str s => .str s
  | .list items => .list (Value.itemDocs items)
  | .map entries => .map (Value.entryDocs entries)
  | .lambda _ => .null

def Value.itemDocs : List Value → List Doc
  | [] => []
  | item :: rest => item.toDoc :: Value.itemDocs rest

def Value.entryDocs : List (String × Value) → List (String × Doc)
  | [] => []
  | (key, value) :: rest => (key, value.toDoc) :: Value.entryDocs rest

end

mutual

/-- Every document is a value. A whole number too large for one becomes the nearest float, and of
two entries with one key the later one counts. -/
def Value.ofDoc : Doc → Value
  | .null => .null
  | .bool b => .bool b
  | .unsigned n =>
    if n.toNat < Nat.pow 2 63 then .int (Int64.ofInt n.toNat) else .float (Binary64.ofInt n.toNat)
  | .signed n => .int n
  | .float x => .float x
  | .str s => .str s
  | .list items => .list (Value.ofDocs items)
  | .map entries => .ofPairs (Value.ofEntryDocs entries)

def Value.ofDocs : List Doc → List Value
  | [] => []
  | item :: rest => Value.ofDoc item :: Value.ofDocs rest

def Value.ofEntryDocs : List (String × Doc) → List (String × Value)
  | [] => []
  | (key, doc) :: rest => (key, Value.ofDoc doc) :: Value.ofEntryDocs rest

end

mutual

/-- The value with null in the place of every lambda. -/
def Value.withoutLambdas : Value → Value
  | .list items => .list (Value.itemsWithoutLambdas items)
  | .map entries => .map (Value.entriesWithoutLambdas entries)
  | .lambda _ => .null
  | .null => .null
  | .bool b => .bool b
  | .int n => .int n
  | .float x => .float x
  | .str s => .str s

def Value.itemsWithoutLambdas : List Value → List Value
  | [] => []
  | item :: rest => item.withoutLambdas :: Value.itemsWithoutLambdas rest

def Value.entriesWithoutLambdas : List (String × Value) → List (String × Value)
  | [] => []
  | (key, value) :: rest => (key, value.withoutLambdas) :: Value.entriesWithoutLambdas rest

end

end Mustache
