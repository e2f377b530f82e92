import Mustache.Binary64.Shortest
import Mustache.Entries

/-! The data that a template is rendered against: its kinds, how a section treats it, its text, its
members and its equality. -/
namespace Mustache

/-- A callable value, known by its identity alone. What a call does is for the host to say. -/
structure Lambda where
  id : Nat
  deriving DecidableEq

/-- Runtime data. A map keeps its keys in ascending order. -/
inductive Value
  | null
  | bool (b : Bool)
  | int (n : Int64)
  | float (x : Float)
  | str (s : String)
  | list (items : List Value)
  | map (entries : List (String × Value))
  | lambda (l : Lambda)
  deriving Inhabited

/-- The coarse type of a value, as reported when it has no text. -/
inductive Kind
  | null | boolean | number | string | list | map | lambda
  deriving DecidableEq

def Kind.label : Kind → String
  | .null => "Null"
  | .boolean => "Boolean"
  | .number => "Number"
  | .string => "String"
  | .list => "List"
  | .map => "Map"
  | .lambda => "Lambda"

/-- How a section treats a value: it skips a falsey one, enters a scalar once, repeats over the
items of a sequence, and hands its body to a renderable one. -/
inductive Shape
  | falsey | scalar | sequence | renderable
  deriving DecidableEq

def Shape.label : Shape → String
  | .falsey => "Falsey"
  | .scalar => "Scalar"
  | .sequence => "Sequence"
  | .renderable => "Renderable"

namespace Value

/-- A map from pairs in any order; of two pairs with one key the later one counts. -/
def ofPairs (pairs : List (String × Value)) : Value := map (Entries.ofList pairs)

def kind : Value → Kind
  | null => .null
  | bool _ => .boolean
  | int _ => .number
  | float _ => .number
  | str _ => .string
  | list _ => .list
  | map _ => .map
  | lambda _ => .lambda

/-- Null, false, both zeros, the empty text and the empty list are falsey; an empty map is not. -/
def shape : Value → Shape
  | null => .falsey
  | bool b => if b then .scalar else .falsey
  | int n => if n = 0 then .falsey else .scalar
  | float x => if Binary64.isZero x then .falsey else .scalar
  | str s => if s.isEmpty then .falsey else .scalar
  | list [] => .falsey
  | list (_ :: _) => .sequence
  | map _ => .scalar
  | lambda _ => .renderable

/-- The text of a scalar. Lists, maps and lambdas have none. -/
def text? : Value → Option String
  | null => some ""
  | bool b => some (if b then "true" else "false")
  | int n => some n.toInt.repr
  | float x => some (Binary64.text x)
  | str s => some s
  | list _ => none
  | map _ => none
  | lambda _ => none

/-- A direct member of a map. -/
def get? (key : String) : Value → Option Value
  | map entries => Entries.get? key entries
  | null | bool _ | int _ | float _ | str _ | list _ | lambda _ => none

/-- The keys of a map, in ascending order. -/
def keys? : Value → Option (List String)
  | map entries => some (Entries.keys entries)
  | null | bool _ | int _ | float _ | str _ | list _ | lambda _ => none

/-- The value at the end of a path of keys. -/
def descend? : Value → List String → Option Value
  | value, [] => some value
  | value, key :: path => (value.get? key).bind fun member => member.descend? path

mutual
/-- Equality of data: numbers compare as floats do, lambdas by identity. -/
def equal : Value → Value → Bool
  | null, null => true
  | bool a, bool b => a == b
  | int a, int b => a == b
  | float a, float b => Binary64.equal a b
  | str a, str b => a == b
  | list a, list b => equalItems a b
  | map a, map b => equalEntries a b
  | lambda a, lambda b => a == b
  | _, _ => false

def equalItems : List Value → List Value → Bool
  | [], [] => true
  | a :: as, b :: bs => equal a b && equalItems as bs
  | _, _ => false

def equalEntries : List (String × Value) → List (String × Value) → Bool
  | [], [] => true
  | (j, a) :: as, (k, b) :: bs => j == k && equal a b && equalEntries as bs
  | _, _ => false
end

instance : BEq Value := ⟨equal⟩

mutual
/-- Every map in the value has its keys in strictly ascending order. -/
def WellFormed : Value → Prop
  | list items => WellFormedItems items
  | map entries => Entries.Sorted entries ∧ WellFormedEntries entries
  | _ => True

def WellFormedItems : List Value → Prop
  | [] => True
  | item :: rest => WellFormed item ∧ WellFormedItems rest

def WellFormedEntries : List (String × Value) → Prop
  | [] => True
  | (_, value) :: rest => WellFormed value ∧ WellFormedEntries rest
end

mutual
/-- No lambda occurs in the value, at any depth. -/
def LambdaFree : Value → Prop
  | list items => LambdaFreeItems items
  | map entries => LambdaFreeEntries entries
  | lambda _ => False
  | _ => True

def LambdaFreeItems : List Value → Prop
  | [] => True
  | item :: rest => LambdaFree item ∧ LambdaFreeItems rest

def LambdaFreeEntries : List (String × Value) → Prop
  | [] => True
  | (_, value) :: rest => LambdaFree value ∧ LambdaFreeEntries rest
end

end Value

/-- What an opaque lambda shows of itself. -/
def Lambda.description : String := "Lambda(..)"

end Mustache
