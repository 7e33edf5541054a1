import LoadPlan.Yaml.Cursor
import LoadPlan.Yaml.Failure

/-! Scalars in indented lines: literal ones keep their line ends, folded ones join their lines. -/
namespace LoadPlan.Yaml.Block

/-- What becomes of the line ends at the end. -/
inductive Chomping
  | strip
  | clip
  | keep
  deriving DecidableEq, Repr

/-- How a block scalar is to be read. -/
structure Header where
  chomping : Chomping
  /-- The indentation beyond that of the parent, if it is given. -/
  increment : Option Nat
  deriving DecidableEq, Repr

def chomping? : Char → Option Chomping
  | '+' => some .keep
  | '-' => some .strip
  | _ => none

/-- The indicators, in either order, and what follows them. A digit of zero is none. -/
def indicators (cs : List Char) : Except Malformed (Header × List Char) :=
  let digit (cs : List Char) : Except Malformed (Option Nat × List Char) :=
    if isDigit (head cs) then
      if head cs == '0' then throw .header else return (some ((head cs).toNat - 0x30), cs.tail)
    else return (none, cs)
  match chomping? (head cs) with
  | some k => do
    let (n, rest) ← digit cs.tail
    return (⟨k, n⟩, rest)
  | none => do
    let (n, rest) ← digit cs
    match n, chomping? (head rest) with
    | some _, some k => return (⟨k, n⟩, rest.tail)
    | _, _ => return (⟨.clip, n⟩, rest)

/-- The head of a scalar up to the end of its line. -/
def header (cs : List Char) : Except Malformed (Header × List Char) := do
  let (h, rest) ← indicators cs
  if head rest != ' ' && !endsLine (head rest) then throw .header
  let rest := skipRemark rest
  if !endsLine (head rest) then throw .header
  return (h, rest.tail)

/-- A stretch of blank lines: their ends, the column reached, and what follows. -/
structure Gap where
  breaks : List Char
  column : Nat
  rest : List Char
  deriving Repr

/-- The blank lines before the first line of text, and the widest indentation in them or before it. -/
def leading (column widest : Nat) : List Char → Gap × Nat
  | [] => (⟨[], column, []⟩, widest)
  | c :: rest =>
    if c == ' ' then leading (column + 1) (max widest (column + 1)) rest
    else if isBreak c then
      let (g, w) := leading 0 widest rest
      ({ g with breaks := keptBreak c :: g.breaks }, w)
    else (⟨[], column, c :: rest⟩, widest)

/-- The blank lines from a column on, with no more than the given indentation taken off. -/
def gap (indent column : Nat) : List Char → Gap
  | [] => ⟨[], column, []⟩
  | c :: rest =>
    if c == ' ' && column < indent then gap indent (column + 1) rest
    else if isBreak c then
      let g := gap indent 0 rest
      { g with breaks := keptBreak c :: g.breaks }
    else ⟨[], column, c :: rest⟩

theorem length_of_gap (indent column : Nat) (cs : List Char) :
    (gap indent column cs).rest.length ≤ cs.length := by
  induction cs generalizing column with
  | nil => simp [gap]
  | cons c rest ih =>
    simp only [gap]
    split
    · have := ih (column + 1)
      simp only [List.length_cons]
      omega
    · split
      · have := ih 0
        simp only [List.length_cons]
        omega
      · simp

/-- What stands between two lines of text. Folding joins lines that do not start with a blank. -/
def joint (folds : Bool) (line lineEnd next : List Char) (blankLines : List Char) : List Char :=
  if folds && lineEnd == ['\n'] && !isBlank (head line) && !isBlank (head next) then
    if blankLines.isEmpty then [' '] else []
  else lineEnd

/-- The line end of the last line and the blank lines after it, as far as they are kept. -/
def tailOf (k : Chomping) (lineEnd blankLines : List Char) : List Char :=
  match k with
  | .strip => []
  | .clip => lineEnd
  | .keep => lineEnd ++ blankLines

/-- The lines of text that start at a column, after blank lines and the end of the line before; what
follows them comes second. -/
def lines (folds : Bool) (k : Chomping) (indent : Nat) (lineEnd : List Char) (g : Gap) :
    List Char × List Char :=
  match _hg : g.rest with
  | [] => (tailOf k lineEnd g.breaks, [])
  | c :: cs =>
    if g.column != indent then (tailOf k lineEnd g.breaks, c :: cs)
    else
      let line := (c :: cs).takeWhile (!isBreak ·)
      match _ha : (c :: cs).dropWhile (!isBreak ·) with
      | [] => (g.breaks ++ line ++ tailOf k [] [], [])
      | b :: after =>
        let next := gap indent 0 after
        let lineEnd := [keptBreak b]
        let (more, last) := lines folds k indent lineEnd next
        let joined :=
          if next.column == indent && !next.rest.isEmpty then joint folds line lineEnd next.rest next.breaks
          else []
        (g.breaks ++ line ++ joined ++ more, last)
termination_by g.rest.length
decreasing_by
  have hn := length_of_gap indent 0 after
  have hd := (List.dropWhile_sublist (!isBreak ·) (l := c :: cs)).length_le
  rw [_ha] at hd
  rw [_hg]
  simp only [List.length_cons] at hd ⊢
  omega

/-- A scalar whose indicator has been read, below an indentation; what follows it comes second. -/
def read (folds : Bool) (indent : Int) (cs : List Char) :
    Except Malformed (List Char × List Char) := do
  let (h, rest) ← header cs
  let least := max 1 (indent + 1).toNat
  match h.increment with
  | some n =>
    let column := least + n - 1
    return lines folds h.chomping column [] (gap column 0 rest)
  | none =>
    let (g, widest) := leading 0 0 rest
    return lines folds h.chomping (max least widest) [] g

end LoadPlan.Yaml.Block
