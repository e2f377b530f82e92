import Mustache.Binary64.Shortest
import Mustache.Entries

/-! Plain documents, the form in which values, errors, settings and templates are stored: their
compact text, and how records and variants are read from them. -/
namespace Mustache

/-- A document. A whole number arrives unsigned when it is not negative, and signed otherwise. -/
inductive Doc
  | null
  | bool (b : Bool)
  | unsigned (n : UInt64)
  | signed (n : Int64)
  | float (x : Float)
  | str (s : String)
  | list (items : List Doc)
  | map (entries : List (String × Doc))
  deriving Inhabited

namespace Doc
variable {α : Type}

/-- The document of a whole number: one beyond 64 bits becomes the nearest float. -/
def ofInt (n : Int) : Doc :=
  if 0 ≤ n ∧ n < Nat.pow 2 64 then unsigned (UInt64.ofNat n.toNat)
  else if -Nat.pow 2 63 ≤ n ∧ n < 0 then signed (Int64.ofInt n)
  else float (Binary64.ofInt n)

def ofNat (n : Nat) : Doc := ofInt n

/-- The document of `± digits / 10 ^ places`. -/
def ofDecimal (negative : Bool) (digits places : Nat) : Doc :=
  if places = 0 then ofInt (if negative then -digits else digits)
  else float (Binary64.nearest negative digits (Nat.pow 10 places))

def ofOption (f : α → Doc) : Option α → Doc
  | none => null
  | some a => f a

def strings (items : List String) : Doc := list (items.map str)

def str? : Doc → Option String
  | str s => some s
  | _ => none

def bool? : Doc → Option Bool
  | bool b => some b
  | _ => none

def nat? : Doc → Option Nat
  | unsigned n => some n.toNat
  | _ => none

/-- A whole number of either sign. -/
def int? : Doc → Option Int
  | unsigned n => some n.toNat
  | signed n => some n.toInt
  | _ => none

def list? : Doc → Option (List Doc)
  | list items => some items
  | _ => none

def entries? : Doc → Option (Entries Doc)
  | map entries => some entries
  | _ => none

/-- A member of a map. -/
def get? (key : String) : Doc → Option Doc
  | map entries => Entries.get? key entries
  | _ => none

/-- An absent member counts as none, and so does null. -/
def optional? (read : Doc → Option α) : Option Doc → Option (Option α)
  | none => some none
  | some null => some none
  | some doc => (read doc).map some

/-- The members of a map that stand for the fields, in the order of the fields. Other keys mean
nothing. -/
def members? (fields : List String) : Doc → Option (List (Option Doc))
  | map entries => some (fields.map fun field => Entries.get? field entries)
  | _ => none

/-- The members of a record, in the order of its fields. A record is written as a map or as a list
that has no more items than there are fields. -/
def record? (fields : List String) : Doc → Option (List (Option Doc))
  | list items =>
    if items.length ≤ fields.length then
      some (items.map some ++ List.replicate (fields.length - items.length) none)
    else none
  | doc => doc.members? fields

/-- A variant: its name alone, or a map from its name to what it holds. -/
def variant? : Doc → Option (String × Option Doc)
  | str name => some (name, none)
  | map [(name, content)] => some (name, some content)
  | _ => none

/-- A variant that holds nothing. -/
def unit? : Option Doc → Option Unit
  | none => some ()
  | some null => some ()
  | some _ => none

/-- The hexadecimal digits of a control character, in four places. -/
def controlCode (c : Char) : List Char :=
  ['\\', 'u', '0', '0', Nat.digitChar (c.toNat / 16), Nat.digitChar (c.toNat % 16)]

/-- One character of a quoted text. -/
def quoteChar (c : Char) : List Char :=
  if c = '\x22' then ['\\', '\x22']
  else if c = '\\' then ['\\', '\\']
  else if c = '\n' then ['\\', 'n']
  else if c = '\r' then ['\\', 'r']
  else if c = '\t' then ['\\', 't']
  else if c = '\x08' then ['\\', 'b']
  else if c = '\x0c' then ['\\', 'f']
  else if c.toNat < 0x20 then controlCode c
  else [c]

def quote (s : String) : String :=
  String.ofList ('\x22' :: (s.toList.flatMap quoteChar ++ ['\x22']))

/-- The text of a positive decimal: without an exponent from five places behind the point up to
sixteen digits in front of it, where a whole number keeps a point, and with one beyond. -/
def decimalText (d : Binary64.Decimal) : String :=
  if -5 ≤ d.magnitude ∧ d.magnitude ≤ 15 then
    d.positional ++ (if 0 ≤ d.exponent then ".0" else "")
  else d.scientific

/-- The text of a float: what is not a number is null, and of two decimals equally short and near
the one whose last digit is even is written. -/
def floatText (x : Float) : String :=
  match Binary64.read x with
  | .nan => "null"
  | .infinite _ => "null"
  | .finite negative 0 _ => if negative then "-0.0" else "0.0"
  | .finite negative significand exponent =>
    (if negative then "-" else "") ++ decimalText (Binary64.shortest .even significand exponent)

mutual

/-- The compact text, without any spaces. -/
def text : Doc → String
  | null => "null"
  | bool b => if b then "true" else "false"
  | unsigned n => Nat.repr n.toNat
  | signed n => n.toInt.repr
  | float x => floatText x
  | str s => quote s
  | list items => "[" ++ String.intercalate "," (texts items) ++ "]"
  | map entries => "\x7b" ++ String.intercalate "," (entryTexts entries) ++ "\x7d"

def texts : List Doc → List String
  | [] => []
  | item :: rest => text item :: texts rest

def entryTexts : List (String × Doc) → List String
  | [] => []
  | (key, value) :: rest => (quote key ++ ":" ++ text value) :: entryTexts rest

end

end Doc

end Mustache
