import LoadPlan.Text.Line

/-! Lines of a screen without its drawing. How texts with style tags in brackets are read is up to a library, which
is a parameter here. -/
namespace LoadPlan.Console

/-- A library that shows texts: the characters that are seen of a text, or the message of the error that it raises. -/
structure Renderer where
  visible : String → Except String (List Char)

namespace Screen

/-- Frames are drawn with these. -/
def isDrawing (c : Char) : Bool :=
  0x2500 ≤ c.toNat && c.toNat ≤ 0x257F

def isFill (c : Char) : Bool :=
  Text.isBlank c || isDrawing c

/-- Write each stretch of blanks and drawing as one space. -/
def squeeze : List Char → List Char
  | [] => []
  | c :: rest =>
    if isFill c then
      match squeeze rest with
      | ' ' :: more => ' ' :: more
      | more => ' ' :: more
    else c :: squeeze rest

/-- A line without drawing and without blanks around it. -/
def tidy (cs : List Char) : String :=
  String.ofList (Text.stripWhere Text.isBlank (squeeze cs))

/-- The lines that are not empty. -/
def tidyLines (ls : List (List Char)) : List String :=
  (ls.map tidy).filter (· != "")

variable (library : Renderer)

/-- The lines of a tagged text. -/
def lines (s : String) : Except String (List String) :=
  (library.visible s).map fun cs => tidyLines (Text.splitLines cs)

/-- A text in a frame with a title. -/
def panel (title s : String) : Except String (List String) :=
  (lines library s).map (title :: ·)

/-- The lines of cells side by side, as many as the longest cell has. -/
def sideBySide (cells : List (List (List Char))) : List (List Char) :=
  let height := (cells.map List.length).foldl max 0
  (List.range height).map fun i =>
    (cells.map fun cell => (cell[i]?.getD []) ++ [' ']).flatten

/-- A row of a table, of tagged texts. -/
def row (cells : List String) : Except String (List String) :=
  (cells.mapM library.visible).map fun cells => tidyLines (sideBySide (cells.map Text.splitLines))

/-- A table with a title and a head. -/
def table (title : String) (head : List String) (rows : List (List String)) :
    Except String (List String) := do
  let head ← row library head
  let rows ← rows.mapM (row library)
  return title :: head ++ rows.flatten

end Screen

end LoadPlan.Console
