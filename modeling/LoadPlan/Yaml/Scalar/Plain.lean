import LoadPlan.Yaml.Cursor

/-! Scalars without quotes. -/
namespace LoadPlan.Yaml.Plain

/-- Whether a plain scalar may begin here. An indicator of structure may only begin one if it is not
followed by a gap. -/
def begins (flow : Bool) (c next : Char) : Bool :=
  !(isGap c || "-?:,[]\x7b\x7d#&*!|>\x27\"%@\x60".toList.contains c) ||
    (!isGap next && (c == '-' || (!flow && (c == '?' || c == ':'))))

/-- Whether a plain scalar stops before a character. -/
def stops (flow : Bool) (c next : Char) : Bool :=
  isGap c || (c == ':' && (isGap next || (flow && ",[]\x7b\x7d".toList.contains next))) ||
    (flow && ",?[]\x7b\x7d".toList.contains c)

/-- The characters without a gap that come next, and what follows them. -/
def word (flow : Bool) : List Char → List Char × List Char
  | [] => ([], [])
  | c :: rest =>
    if stops flow c (head rest) then ([], c :: rest)
    else let (w, after) := word flow rest; (c :: w, after)

theorem word_append (flow : Bool) (cs : List Char) : (word flow cs).1 ++ (word flow cs).2 = cs := by
  induction cs with
  | nil => rfl
  | cons c rest ih =>
    rw [word]
    split
    · rfl
    · exact congrArg (c :: ·) ih

/-- Spaces and line ends: the line ends, and what follows. A document marker stops them and the scalar. -/
def breaks : List Char → Option (List Char) × List Char
  | [] => (some [], [])
  | c :: rest =>
    if c == ' ' then breaks rest
    else if isBreak c then
      if isMarker rest then (none, rest)
      else let (bs, after) := breaks rest; (bs.map (keptBreak c :: ·), after)
    else (some [], c :: rest)

theorem length_of_breaks (cs : List Char) : (breaks cs).2.length ≤ cs.length := by
  induction cs with
  | nil => exact Nat.le_refl _
  | cons c rest ih =>
    rw [breaks]
    split
    · exact Nat.le_succ_of_le ih
    · split
      · split
        · exact Nat.le_succ _
        · exact Nat.le_succ_of_le ih
      · exact Nat.le_refl _

/-- Line ends between words: a single line feed becomes a space, and of several the first is left
out. -/
def folded (bs : List Char) : List Char :=
  match bs with
  | ['\n'] => [' ']
  | '\n' :: more => more
  | _ => bs

/-- What stands between two words, none if nothing more belongs to the scalar, and what follows. The
flag tells whether a line ended. -/
def between (cs : List Char) : List Char × List Char × Bool :=
  let spaces := cs.takeWhile (· == ' ')
  let after := cs.dropWhile (· == ' ')
  if isBreak (head after) then
    let (bs, rest) := breaks after
    ((bs.map folded).getD [], rest, true)
  else (spaces, after, false)

theorem length_of_between (cs : List Char) : (between cs).2.1.length ≤ cs.length := by
  have hs := (List.dropWhile_sublist (· == ' ') (l := cs)).length_le
  rw [between]
  split
  · exact Nat.le_trans (length_of_breaks _) hs
  · exact hs

/-- A plain scalar in lines indented at least so far, what follows it, and whether that is on a new
line. -/
def read (flow : Bool) (indent : Int) (c : Cursor) (lineEnded : Bool) : List Char × Cursor × Bool :=
  if c.next == '#' then ([], c, lineEnded)
  else
    match _hw : word flow c.rest with
    | ([], _) => ([], c, lineEnded)
    | (a :: w, rest) =>
      match _hg : between rest with
      | (gap, after, ended) =>
        let there := c.skipTo after
        if gap.isEmpty || there.next == '#' || (!flow && (there.column : Int) < indent) then
          (a :: w, there, ended)
        else
          let (more, last, ended) := read flow indent there ended
          (if more.isEmpty then a :: w else a :: w ++ gap ++ more, last, ended)
termination_by c.rest.length
decreasing_by
  have ha := congrArg List.length (word_append flow c.rest)
  have hb := length_of_between rest
  rw [_hw, List.length_append, List.length_cons] at ha
  rw [_hg] at hb
  dsimp only at ha hb
  rw [Cursor.length_rest_skipTo (by omega)]
  omega

end LoadPlan.Yaml.Plain
