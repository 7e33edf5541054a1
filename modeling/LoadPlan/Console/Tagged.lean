import LoadPlan.Console.Screen
import LoadPlan.Console.Style

/-! A library for running the commands. Of texts with style tags in brackets it shows what is not a tag, and it
raises an error on a closing tag without an opening one. It knows neither emoji nor links. -/
namespace LoadPlan.Console.Tagged

inductive Piece
  | plain (cs : List Char)
  | tag (name : List Char)
  deriving DecidableEq, Repr

/-- The inside of a tag up to its bracket. There is no other opening bracket in it. -/
def inside? : List Char → Option (List Char × List Char)
  | [] => none
  | ']' :: rest => some ([], rest)
  | '[' :: _ => none
  | c :: rest => (inside? rest).map fun p => (c :: p.1, p.2)

theorem length_of_inside? {cs inside after : List Char} (h : inside? cs = some (inside, after)) :
    after.length < cs.length := by
  fun_induction inside? cs generalizing inside after with
  | case1 => cases h
  | case2 rest =>
    cases h
    exact Nat.lt_succ_self _
  | case3 => cases h
  | case4 c rest _ _ ih =>
    obtain ⟨⟨inner, rest'⟩, hi, hp⟩ := Option.map_eq_some_iff.1 h
    cases hp
    exact Nat.lt_succ_of_lt (ih hi)

/-- What stands in a tag that begins here, and what follows it. A tag begins with a small letter, a slash,
a hash or an at sign. -/
def tag? : List Char → Option (List Char × List Char)
  | '[' :: c :: rest =>
    if ('a' ≤ c && c ≤ 'z') || c == '#' || c == '/' || c == '@' then
      (inside? rest).map fun p => (c :: p.1, p.2)
    else none
  | _ => none

theorem length_of_tag? {cs inside after : List Char} (h : tag? cs = some (inside, after)) :
    after.length < cs.length := by
  unfold tag? at h
  split at h
  · split at h
    · obtain ⟨⟨inner, rest'⟩, hi, hp⟩ := Option.map_eq_some_iff.1 h
      cases hp
      exact Nat.lt_succ_of_lt (Nat.lt_succ_of_lt (length_of_inside? hi))
    · cases h
  · cases h

/-- Put a character before the pieces. -/
def push (c : Char) : List Piece → List Piece
  | .plain cs :: ps => .plain (c :: cs) :: ps
  | ps => .plain [c] :: ps

/-- The pieces of a text. Of the backslashes before a tag each two stand for one, and an odd one makes the
tag a text. -/
def pieces (cs : List Char) : List Piece :=
  match cs with
  | [] => []
  | c :: rest =>
    let slashes := (c :: rest).takeWhile (· == '\\')
    match _h : tag? ((c :: rest).dropWhile (· == '\\')) with
    | some (inside, after) =>
      let kept := List.replicate (slashes.length / 2) '\\'
      if slashes.length % 2 = 1 then
        .plain kept :: .plain ('[' :: inside ++ [']']) :: pieces after
      else .plain kept :: .tag inside :: pieces after
    | none => push c (pieces rest)
termination_by cs.length
decreasing_by
  · exact Nat.lt_of_lt_of_le (length_of_tag? _h) (List.dropWhile_sublist _).length_le
  · exact Nat.lt_of_lt_of_le (length_of_tag? _h) (List.dropWhile_sublist _).length_le
  · exact Nat.lt_succ_self _

/-- In plain text a backslash before a bracket is not seen. -/
def unescape : List Char → List Char
  | [] => []
  | '\\' :: '[' :: rest => '[' :: unescape rest
  | c :: rest => c :: unescape rest

/-- Remove the innermost open style of a name. -/
def close? (name : String) : List String → Option (List String)
  | [] => none
  | s :: styles => if s = name then some styles else (close? name styles).map (s :: ·)

/-- The text that is seen, with the styles that are open. -/
def seen (styles : List String) : List Piece → Except String (List Char)
  | [] => .ok []
  | .plain cs :: ps => (seen styles ps).map (unescape cs ++ ·)
  | .tag inside :: ps =>
    let name := inside.takeWhile (· != '=')
    match name with
    | '/' :: closed =>
      let closed := Text.strip (String.ofList closed)
      let left := if closed = "" then (if styles.isEmpty then none else some styles.tail)
        else close? (Style.canonical closed) styles
      match left with
      | some left => seen left ps
      | none => .error s!"closing tag '[{String.ofList inside}]' does not match any open tag"
    | _ => seen (Style.canonical (String.ofList name) :: styles) ps

/-- Controls that are not written. -/
def isSilent (c : Char) : Bool :=
  c == '\x07' || c == '\x08' || c == '\x0b' || c == '\x0c' || c == '\r'

/-- The text that is seen of a tagged text. -/
def visible (s : String) : Except String (List Char) :=
  let cs := s.toList
  (if cs.contains '[' then seen [] (pieces cs) else .ok cs).map (·.filter fun c => !isSilent c)

def renderer : Renderer := ⟨visible⟩

end LoadPlan.Console.Tagged
