import LoadPlan.Text.Utf8

/-! Paths: a root and the names below it. -/
namespace LoadPlan.Storage

/-- A path without empty and dot names. The root is empty for a relative path; exactly two slashes at
the start of a text stay two. -/
structure Path where
  root : String
  parts : List String
  deriving DecidableEq, Repr, Inhabited

namespace Path

/-- The names in a path text. -/
def names (s : String) : List String :=
  ((s.toList.splitOn '/').map String.ofList).filter fun name => name != "" && name != "."

def ofString (s : String) : Path :=
  let root := match s.toList with
    | '/' :: '/' :: '/' :: _ => "/"
    | '/' :: '/' :: _ => "//"
    | '/' :: _ => "/"
    | _ => ""
  ⟨root, names s⟩

/-- A text without slashes is one name, unless it is empty or a dot. -/
theorem ofString_of_name {s : String} (hslash : '/' ∉ s.toList) (hempty : s ≠ "") (hdot : s ≠ ".") :
    ofString s = ⟨"", [s]⟩ := by
  have hnames : names s = [s] := by
    rw [names, List.splitOn_eq_singleton hslash, List.map_singleton, String.ofList_toList,
      List.filter_cons_of_pos (by simp [hempty, hdot]), List.filter_nil]
  have hhead (rest : List Char) : s.toList ≠ '/' :: rest := fun h => hslash (h ▸ List.mem_cons_self ..)
  unfold ofString
  rw [hnames]
  split
  · next h => exact absurd h (hhead _)
  · next h => exact absurd h (hhead _)
  · next h => exact absurd h (hhead _)
  · rfl

/-- The text of a path; the empty relative one is a dot. -/
def text (p : Path) : String :=
  if p.root = "" && p.parts.isEmpty then "."
  else String.ofList (p.root.toList ++ ['/'].intercalate (p.parts.map String.toList))

def isAbsolute (p : Path) : Bool :=
  p.root != ""

/-- The path without its last name. -/
def parent (p : Path) : Path :=
  ⟨p.root, p.parts.dropLast⟩

/-- A path as seen from a directory. -/
def join (dir p : Path) : Path :=
  if p.isAbsolute then p else ⟨dir.root, dir.parts ++ p.parts⟩

/-- The longest name that a directory can hold, in bytes. -/
def nameLimit : Nat := 255

/-- The longest text of a path that can be looked up, in bytes. -/
def textLimit : Nat := 4095

/-- How many bytes the text of a path takes up. -/
def size (p : Path) : Nat :=
  (Text.Utf8.encode p.text).length

theorem size_of_name (name : String) : (Path.mk "" [name]).size = (Text.Utf8.encode name).length := by
  have htext : (Path.mk "" [name]).text = name := by simp [text]
  rw [size, htext]

theorem join_of_isAbsolute {dir p : Path} (h : p.isAbsolute) : dir.join p = p := by
  simp [join, h]

end Path

end LoadPlan.Storage
