import LoadPlan.Text.Character

/-! The blanks around a text, and its lines: a line feed, a carriage return or the pair of them ends a line. -/
namespace LoadPlan.Text

/-- Drop the characters of a class at both ends. -/
def stripWhere (p : Char → Bool) (cs : List Char) : List Char :=
  ((cs.dropWhile p).reverse.dropWhile p).reverse

/-- Drop the blanks at both ends. -/
def strip (s : String) : String :=
  String.ofList (stripWhere isBlank s.toList)

/-- Write each line end as one line feed. -/
def unifyLineEnds : List Char → List Char
  | [] => []
  | '\r' :: '\n' :: rest => '\n' :: unifyLineEnds rest
  | '\r' :: rest => '\n' :: unifyLineEnds rest
  | c :: rest => c :: unifyLineEnds rest

/-- The pieces of a text between separators, the piece after the last one included. -/
def parts (separator : Char) : List Char → List (List Char)
  | [] => [[]]
  | c :: rest =>
    if c = separator then [] :: parts separator rest
    else match parts separator rest with
      | [] => [[c]]
      | part :: more => (c :: part) :: more

/-- The pieces between line feeds, the piece after the last one included. -/
def splitLines : List Char → List (List Char)
  | [] => [[]]
  | c :: rest =>
    if c = '\n' then [] :: splitLines rest
    else match splitLines rest with
      | [] => [[c]]
      | line :: lines => (c :: line) :: lines

def lines (cs : List Char) : List (List Char) :=
  splitLines (unifyLineEnds cs)

end LoadPlan.Text
