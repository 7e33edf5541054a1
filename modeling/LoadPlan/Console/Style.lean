import LoadPlan.Text.Line

/-! Names of styles in one form, so that two names of one style are equal. -/
namespace LoadPlan.Console

/-- A style: what is switched on or off, two colours, and a link. -/
structure Style where
  attributes : List (String × Bool)
  colour : Option String
  background : Option String
  link : Option String
  deriving DecidableEq, Repr, Inhabited

namespace Style

/-- The attributes, in the order in which they are named, with their short names. -/
def attributeNames : List (String × List String) :=
  [("bold", ["b"]), ("dim", ["d"]), ("italic", ["i"]), ("underline", ["u"]), ("blink", []),
   ("blink2", []), ("reverse", ["r"]), ("conceal", ["c"]), ("strike", ["s"]), ("underline2", ["uu"]),
   ("frame", []), ("encircle", []), ("overline", ["o"])]

def attribute? (word : String) : Option String :=
  (attributeNames.find? fun a => a.1 == word || a.2.contains word).map (·.1)

def plain : Style := ⟨[], none, none, none⟩

def basicColours : List String :=
  ["black", "red", "green", "yellow", "blue", "magenta", "cyan", "white"]

/-- The colours are the basic ones, bright or not, and those given by six digits in base sixteen. -/
def isColour (word : String) : Bool :=
  match word.toList with
  | '#' :: digits => digits.length == 6 && digits.all Text.isHexDigit
  | _ => word == "default" || basicColours.any fun c => word == c || word == "bright_" ++ c

/-- The style that words describe, if each is an attribute or a colour. -/
def ofWords (s : Style) : List String → Option Style
  | [] => some s
  | word :: rest =>
    match word, rest with
    | "on", [] => none
    | "on", colour :: rest =>
      if isColour colour then ofWords { s with background := some colour } rest else none
    | "not", [] => none
    | "not", word :: rest =>
      match attribute? word with
      | some a => ofWords { s with attributes := (a, false) :: s.attributes } rest
      | none => none
    | "link", [] => none
    | "link", target :: rest => ofWords { s with link := some target } rest
    | word, rest =>
      match attribute? word with
      | some a => ofWords { s with attributes := (a, true) :: s.attributes } rest
      | none => if isColour word then ofWords { s with colour := some word } rest else none

/-- The name of a style: its attributes in their order, its colour, its background, its link. -/
def name (s : Style) : String :=
  let attributes := attributeNames.filterMap fun a =>
    (s.attributes.lookup a.1).map fun on => if on then a.1 else "not " ++ a.1
  let words := attributes ++ s.colour.toList ++ s.background.toList.map ("on " ++ ·) ++
    s.link.toList.map ("link " ++ ·)
  if words.isEmpty then "none" else " ".intercalate words

/-- The words of a text. -/
def words (cs : List Char) : List String :=
  (splitBlanks cs).map String.ofList |>.filter (· != "")
where
  splitBlanks : List Char → List (List Char)
    | [] => [[]]
    | c :: rest =>
      if Text.isBlank c then [] :: splitBlanks rest
      else match splitBlanks rest with
        | [] => [[c]]
        | w :: ws => (c :: w) :: ws

/-- The one name for all names of a style; what names none stands for itself in lower case. -/
def canonical (s : String) : String :=
  let lowered := Text.lower (Text.strip s)
  if lowered = "none" then "none"
  else match ofWords plain (words lowered.toList) with
    | some style => style.name
    | none => lowered

end Style

end LoadPlan.Console
