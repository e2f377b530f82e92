/-! Text inside HTML: five characters are written as entities, and the entities read back. -/
namespace Mustache.Text

/-- How one character is written inside HTML. -/
def htmlEntity : Char → List Char
  | '&' => ['&', 'a', 'm', 'p', ';']
  | '<' => ['&', 'l', 't', ';']
  | '>' => ['&', 'g', 't', ';']
  | '\x22' => ['&', 'q', 'u', 'o', 't', ';']
  | '\x27' => ['&', '#', '3', '9', ';']
  | c => [c]

/-- Writes every reserved character as its entity. -/
def escapeHtml (s : String) : String :=
  String.ofList (s.toList.flatMap htmlEntity)

/-- Reads the five entities back, from left to right. -/
def readHtml : List Char → List Char
  | '&' :: 'a' :: 'm' :: 'p' :: ';' :: rest => '&' :: readHtml rest
  | '&' :: 'l' :: 't' :: ';' :: rest => '<' :: readHtml rest
  | '&' :: 'g' :: 't' :: ';' :: rest => '>' :: readHtml rest
  | '&' :: 'q' :: 'u' :: 'o' :: 't' :: ';' :: rest => '\x22' :: readHtml rest
  | '&' :: '#' :: '3' :: '9' :: ';' :: rest => '\x27' :: readHtml rest
  | c :: rest => c :: readHtml rest
  | [] => []

/-- The text that an escaped text stands for. -/
def unescapeHtml (s : String) : String :=
  String.ofList (readHtml s.toList)

end Mustache.Text
