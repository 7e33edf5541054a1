import LoadPlan.Yaml.Character

/-! A place in a text: what is left of it, and where that begins. -/
namespace LoadPlan.Yaml

structure Cursor where
  rest : List Char
  index : Nat
  line : Nat
  column : Nat
  deriving Repr

namespace Cursor

def start (cs : List Char) : Cursor := ⟨cs, 0, 0, 0⟩

/-- The next character. -/
def next (c : Cursor) : Char := head c.rest

/-- The character after the next. -/
def second (c : Cursor) : Char := head c.rest.tail

/-- Go on by one character. A byte order mark takes up no column. -/
def step (c : Cursor) : Cursor :=
  match c.rest with
  | [] => c
  | a :: rest =>
    if isBreak a then ⟨rest, c.index + 1, c.line + 1, 0⟩
    else ⟨rest, c.index + 1, c.line, if a = '\ufeff' then c.column else c.column + 1⟩

def skip (c : Cursor) : Nat → Cursor
  | 0 => c
  | n + 1 => skip c.step n

theorem rest_step (c : Cursor) : c.step.rest = c.rest.tail := by
  unfold step
  split
  · simp [*]
  · split <;> simp [*]

theorem rest_skip (c : Cursor) (n : Nat) : (c.skip n).rest = c.rest.drop n := by
  induction n generalizing c with
  | zero => rfl
  | succ n ih => rw [skip, ih, rest_step, List.drop_tail]

/-- Go on to where only some last part of the text is left. -/
def skipTo (c : Cursor) (rest : List Char) : Cursor :=
  c.skip (c.rest.length - rest.length)

theorem length_rest_skipTo {c : Cursor} {rest : List Char} (h : rest.length ≤ c.rest.length) :
    (c.skipTo rest).rest.length = rest.length := by
  rw [skipTo, rest_skip, List.length_drop]
  omega

/-- Whether a document marker made of a character stands here. -/
def atMarker (c : Cursor) (a : Char) : Bool :=
  c.column == 0 && c.next == a && isMarker c.rest

end Cursor

/-- The rest of a line without spaces and a comment. -/
def skipRemark (cs : List Char) : List Char :=
  let cs := cs.dropWhile (· == ' ')
  if head cs == '#' then cs.dropWhile (!isBreak ·) else cs

theorem length_skipRemark (cs : List Char) : (skipRemark cs).length ≤ cs.length := by
  have h := (List.dropWhile_sublist (· == ' ') (l := cs)).length_le
  simp only [skipRemark]
  split
  · exact Nat.le_trans (List.dropWhile_sublist (!isBreak ·)).length_le h
  · exact h

/-- What follows spaces, comments and line ends; the flag tells whether a line ended. -/
def skipLines (cs : List Char) : List Char × Bool :=
  match _h : skipRemark cs with
  | [] => ([], false)
  | c :: rest => if isBreak c then ((skipLines rest).1, true) else (c :: rest, false)
termination_by cs.length
decreasing_by
  have hle := length_skipRemark cs
  rw [_h] at hle
  simp only [List.length_cons] at hle
  omega

end LoadPlan.Yaml
