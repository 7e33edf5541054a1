import LoadPlan.Text.Character
import LoadPlan.Yaml.Character
import LoadPlan.Yaml.Failure

/-! Scalars in single and double quotes. -/
namespace LoadPlan.Yaml.Quoted

open LoadPlan.Text (Point)

/-- The line ends at the start of further lines, blanks left out, and what follows. A document marker may
not stand there. -/
def breaks (cs : List Char) : Except Failure (List Char × List Char) :=
  if isMarker cs then throw (Malformed.quotes : Failure)
  else
    match _h : cs.dropWhile isBlank with
    | [] => return ([], [])
    | c :: rest =>
      if isBreak c then do
        let (bs, last) ← breaks rest
        return (keptBreak c :: bs, last)
      else return ([], c :: rest)
termination_by cs.length
decreasing_by
  have hle := (List.dropWhile_sublist isBlank (l := cs)).length_le
  rw [_h] at hle
  exact hle

theorem length_of_breaks {cs bs after : List Char} (h : breaks cs = .ok (bs, after)) :
    after.length ≤ cs.length := by
  fun_induction breaks cs generalizing bs after with
  | case1 => cases h
  | case2 => cases h; exact Nat.zero_le _
  | case3 cs _ c rest hd _ ih =>
    have hle := (List.dropWhile_sublist isBlank (l := cs)).length_le
    rw [hd] at hle
    rcases hm : breaks rest with e | ⟨more, last⟩
    · rw [hm] at h
      cases h
    · rw [hm] at h
      cases h
      exact Nat.le_trans (Nat.le_succ_of_le (ih hm)) hle
  | case4 cs _ c rest hd =>
    cases h
    exact hd ▸ (List.dropWhile_sublist isBlank (l := cs)).length_le

/-- The line ends between two parts of a text: a single line feed becomes a space, and of several
the first is left out. -/
def folded (first : Char) (more : List Char) : List Char :=
  if first != '\n' then first :: more
  else if more.isEmpty then [' ']
  else more

/-- What a backslash and one character stand for. -/
def escape? : Char → Option Char
  | '0' => some '\x00'
  | 'a' => some '\x07'
  | 'b' => some '\x08'
  | 't' => some '\t'
  | '\t' => some '\t'
  | 'n' => some '\n'
  | 'v' => some '\x0b'
  | 'f' => some '\x0c'
  | 'r' => some '\r'
  | 'e' => some '\x1b'
  | ' ' => some ' '
  | '"' => some '"'
  | '\\' => some '\\'
  | '/' => some '/'
  | 'N' => some '\u0085'
  | '_' => some '\u00a0'
  | 'L' => some '\u2028'
  | 'P' => some '\u2029'
  | _ => none

/-- How many digits follow the letter of a numeric escape. -/
def codeLength? : Char → Option Nat
  | 'x' => some 2
  | 'u' => some 4
  | 'U' => some 8
  | _ => none

/-- The number written by a given count of digits, and what follows. -/
def code? (digits : Nat) (cs : List Char) : Option (Nat × List Char) :=
  match (cs.take digits).mapM Text.hexDigit? with
  | some ds =>
    if ds.length = digits then some (Text.ofDigits 16 ds, cs.drop digits) else none
  | none => none

theorem length_of_code? {digits k : Nat} {cs after : List Char}
    (h : code? digits cs = some (k, after)) : after.length ≤ cs.length := by
  unfold code? at h
  split at h
  · split at h
    · cases h
      exact (List.drop_sublist digits cs).length_le
    · cases h
  · cases h

/-- The last number that fits a signed word of 32 bits. -/
def greatestWord : Nat := 0x7FFFFFFF

/-- The code point of a number. -/
def point (n : Nat) : Except Failure Point :=
  if greatestWord < n then throw (Unconvertible.tooLarge : Failure)
  else if 0x10FFFF < n then throw (Unconvertible.noSuchCharacter : Failure)
  else return .ofNat n

/-- What an escape stands for, and what follows it. -/
def escaped (cs : List Char) : Except Failure (List Point × List Char) :=
  match cs with
  | [] => throw (Malformed.escape : Failure)
  | e :: rest =>
    match escape? e, codeLength? e with
    | some c, _ => return ([.character c], rest)
    | none, some n =>
      match code? n rest with
      | none => throw (Malformed.escape : Failure)
      | some (k, after) => do
        let p ← point k
        return ([p], after)
    | none, none =>
      if isBreak e then do
        let (bs, after) ← breaks rest
        return (bs.map .character, after)
      else throw (Malformed.escape : Failure)

theorem length_of_escaped {cs after : List Char} {ps : List Point} (h : escaped cs = .ok (ps, after)) :
    after.length < cs.length := by
  unfold escaped at h
  split at h
  · cases h
  · split at h
    · cases h
      exact Nat.lt_succ_self _
    · split at h
      · cases h
      · rename_i e rest _ _ n _ k rest' hk
        rcases hm : point k with e | p
        · rw [hm] at h
          cases h
        · rw [hm] at h
          cases h
          exact Nat.lt_succ_of_le (length_of_code? hk)
    · split at h
      · rename_i e rest _ _ _ _ _
        rcases hm : breaks rest with e | ⟨bs, last⟩
        · rw [hm] at h
          cases h
        · rw [hm] at h
          cases h
          exact Nat.lt_succ_of_le (length_of_breaks hm)
      · cases h

/-- What a character inside the quotes and those that belong to it stand for, and what follows. -/
def part (double : Bool) (c : Char) (rest : List Char) : Except Failure (List Point × List Char) :=
  if isBlank c then
    let after := rest.dropWhile isBlank
    if isEnd (head after) then throw (Malformed.quotes : Failure)
    else return ((if isBreak (head after) then [] else c :: rest.takeWhile isBlank).map .character, after)
  else if isBreak c then do
    let (bs, after) ← breaks rest
    return ((folded (keptBreak c) bs).map .character, after)
  else if double && c == '\\' then escaped rest
  else if !double && c == '\x27' then return ([.character '\x27'], rest.tail)
  else return ([.character c], rest)

theorem length_of_part {double : Bool} {c : Char} {rest after : List Char} {ps : List Point}
    (h : part double c rest = .ok (ps, after)) : after.length ≤ rest.length := by
  unfold part at h
  split at h
  · dsimp only at h
    split at h
    · cases h
    · cases h
      exact (List.dropWhile_sublist isBlank).length_le
  · split at h
    · rcases hm : breaks rest with e | ⟨bs, last⟩
      · rw [hm] at h
        cases h
      · rw [hm] at h
        cases h
        exact length_of_breaks hm
    · split at h
      · exact Nat.le_of_lt (length_of_escaped h)
      · split at h
        · cases h
          exact (List.tail_sublist rest).length_le
        · cases h
          exact Nat.le_refl _

/-- Whether a character closes the quotes: a single one is no end if another follows. -/
def closes (double : Bool) (c : Char) (rest : List Char) : Bool :=
  if double then c == '"' else c == '\x27' && head rest != '\x27'

/-- The text up to the closing quote, and what follows that. -/
def read (double : Bool) (cs : List Char) : Except Failure (List Point × List Char) :=
  match cs with
  | [] => throw (Malformed.quotes : Failure)
  | c :: rest =>
    if closes double c rest then return ([], rest)
    else
      match _h : part double c rest with
      | .error e => throw e
      | .ok (ps, after) => do
        let (more, last) ← read double after
        return (ps ++ more, last)
termination_by cs.length
decreasing_by exact Nat.lt_succ_of_le (length_of_part _h)

end LoadPlan.Yaml.Quoted
