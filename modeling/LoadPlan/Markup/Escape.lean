/-! Escaping of text for elements and attribute values. -/
namespace LoadPlan.Markup.Escape

/-- In attribute values quotes, line ends and tabs are escaped too: a reader would turn them into
spaces or end the value there. -/
def encodeChar (quoted : Bool) (c : Char) : List Char :=
  match c with
  | '&' => "&amp;".toList
  | '<' => "&lt;".toList
  | '>' => "&gt;".toList
  | '"' => if quoted then "&quot;".toList else [c]
  | '\n' => if quoted then "&#10;".toList else [c]
  | '\r' => if quoted then "&#13;".toList else [c]
  | '\t' => if quoted then "&#9;".toList else [c]
  | _ => [c]

def encodeList (quoted : Bool) (cs : List Char) : List Char :=
  cs.flatMap (encodeChar quoted)

def encode (quoted : Bool) (s : String) : String :=
  String.ofList (encodeList quoted s.toList)

theorem encodeList_append (quoted : Bool) (a b : List Char) :
    encodeList quoted (a ++ b) = encodeList quoted a ++ encodeList quoted b :=
  List.flatMap_append

/-- Undo the escapes from left to right; everything else stands for itself. -/
def decode : List Char → List Char
  | [] => []
  | '&' :: 'a' :: 'm' :: 'p' :: ';' :: rest => '&' :: decode rest
  | '&' :: 'l' :: 't' :: ';' :: rest => '<' :: decode rest
  | '&' :: 'g' :: 't' :: ';' :: rest => '>' :: decode rest
  | '&' :: 'q' :: 'u' :: 'o' :: 't' :: ';' :: rest => '"' :: decode rest
  | '&' :: '#' :: '1' :: '0' :: ';' :: rest => '\n' :: decode rest
  | '&' :: '#' :: '1' :: '3' :: ';' :: rest => '\r' :: decode rest
  | '&' :: '#' :: '9' :: ';' :: rest => '\t' :: decode rest
  | c :: rest => c :: decode rest

end LoadPlan.Markup.Escape
