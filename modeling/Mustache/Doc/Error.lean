import Mustache.Doc
import Mustache.Error

/-! Errors as documents: each cause is a variant that holds its particulars. Particulars that have
names of their own are written as a map, and a parse error, being a record, also as a list. -/
namespace Mustache

def Kind.ofDoc? (doc : Doc) : Option Kind := do
  let (name, content) ← doc.variant?
  Doc.unit? content
  match name with
  | "Null" => some null
  | "Boolean" => some boolean
  | "Number" => some number
  | "String" => some string
  | "List" => some list
  | "Map" => some map
  | "Lambda" => some lambda
  | _ => none

namespace ParseErrorKind

def toDoc : ParseErrorKind → Doc
  | unexpectedToken wanted found =>
    .map [("UnexpectedToken", .map [("expected", .str wanted), ("found", .str found)])]
  | unexpectedEnd expectation =>
    .map [("UnexpectedEOF", .map [("expected_what", .str expectation)])]
  | expected description => .map [("Expected", .map [("description", .str description)])]
  | invalidDelimiters content => .map [("InvalidDelimiters", .map [("content", .str content)])]
  | message words => .map [("Message", .str words)]

end ParseErrorKind

/-- The members of a map that holds nothing but texts, each of them required. -/
def Doc.textMembers? (fields : List String) (doc : Doc) : Option (List String) := do
  let members ← doc.members? fields
  members.mapM fun member => member.bind Doc.str?

namespace ParseErrorKind

def ofDoc? (doc : Doc) : Option ParseErrorKind := do
  let (name, content) ← doc.variant?
  let content ← content
  match name with
  | "UnexpectedToken" =>
    match ← content.textMembers? ["expected", "found"] with
    | [wanted, found] => some (.unexpectedToken wanted found)
    | _ => none
  | "UnexpectedEOF" =>
    match ← content.textMembers? ["expected_what"] with
    | [expectation] => some (.unexpectedEnd expectation)
    | _ => none
  | "Expected" =>
    match ← content.textMembers? ["description"] with
    | [description] => some (.expected description)
    | _ => none
  | "InvalidDelimiters" =>
    match ← content.textMembers? ["content"] with
    | [text] => some (.invalidDelimiters text)
    | _ => none
  | "Message" => content.str?.map .message
  | _ => none

end ParseErrorKind

namespace ParseError

def toDoc (e : ParseError) : Doc :=
  .map [("line", .ofNat e.line), ("column", .ofNat e.column), ("kind", e.kind.toDoc)]

def ofDoc? (doc : Doc) : Option ParseError := do
  match ← doc.record? ["line", "column", "kind"] with
  | [some line, some column, some kind] =>
    some ⟨← line.nat?, ← column.nat?, ← ParseErrorKind.ofDoc? kind⟩
  | _ => none

end ParseError

namespace Error

/-- The name of the cause. -/
def label : Error → String
  | templateExists _ => "TemplateExists"
  | missingTemplate _ => "MissingTemplate"
  | missingVariable _ => "MissingVariable"
  | partialNotFound _ => "PartialNotFound"
  | inclusionCycle _ _ => "InclusionCycle"
  | lambdaFailed _ _ => "Lambda"
  | conversion _ _ => "Conversion"
  | invertedLambda _ => "UnsupportedInvertedLambda"
  | depthExceeded _ => "DepthExceeded"
  | duplicateBlock _ => "DuplicateBlock"
  | cancelled => "Cancelled"
  | parse _ => "Parse"

/-- The particulars of the cause, if it has any. -/
def particulars : Error → Option Doc
  | templateExists name => some (.map [("template_name", .str name)])
  | missingTemplate name => some (.map [("template_name", .str name)])
  | missingVariable name => some (.map [("variable_name", .str name)])
  | partialNotFound name => some (.map [("name", .str name)])
  | inclusionCycle name path => some (.map [("name", .str name), ("path", .strings path)])
  | lambdaFailed name words => some (.map [("name", .str name), ("message", .str words)])
  | conversion name found => some (.map [("name", .str name), ("found", .str found.label)])
  | invertedLambda name => some (.map [("name", .str name)])
  | depthExceeded limit => some (.map [("limit", .ofNat limit)])
  | duplicateBlock name => some (.map [("name", .str name)])
  | cancelled => none
  | parse error => some error.toDoc

def toDoc (e : Error) : Doc :=
  match e.particulars with
  | none => .str e.label
  | some content => .map [(e.label, content)]

/-- Reads a cause whose only particular is a text. -/
def ofText? (make : String → Error) (field : String) (content : Option Doc) : Option Error := do
  match ← (← content).textMembers? [field] with
  | [text] => some (make text)
  | _ => none

def ofDoc? (doc : Doc) : Option Error := do
  let (name, content) ← doc.variant?
  match name with
  | "TemplateExists" => ofText? templateExists "template_name" content
  | "MissingTemplate" => ofText? missingTemplate "template_name" content
  | "MissingVariable" => ofText? missingVariable "variable_name" content
  | "PartialNotFound" => ofText? partialNotFound "name" content
  | "UnsupportedInvertedLambda" => ofText? invertedLambda "name" content
  | "DuplicateBlock" => ofText? duplicateBlock "name" content
  | "InclusionCycle" =>
    match ← (← content).members? ["name", "path"] with
    | [some name, some path] =>
      some (inclusionCycle (← name.str?) (← (← path.list?).mapM Doc.str?))
    | _ => none
  | "Lambda" =>
    match ← (← content).textMembers? ["name", "message"] with
    | [name, words] => some (lambdaFailed name words)
    | _ => none
  | "Conversion" =>
    match ← (← content).members? ["name", "found"] with
    | [some name, some found] => some (conversion (← name.str?) (← Kind.ofDoc? found))
    | _ => none
  | "DepthExceeded" =>
    match ← (← content).members? ["limit"] with
    | [some limit] => some (depthExceeded (← limit.nat?))
    | _ => none
  | "Cancelled" => (Doc.unit? content).map fun _ => cancelled
  | "Parse" => (ParseError.ofDoc? (← content)).map parse
  | _ => none

end Error

end Mustache
