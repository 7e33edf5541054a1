import LoadPlan.Number.Integer
import LoadPlan.Text.Utf8
import LoadPlan.Yaml.Cursor
import LoadPlan.Yaml.Token

/-! Anchors, tags and directives. -/
namespace LoadPlan.Yaml.Property

/-- A name of at least one character, and what follows it. -/
def name? (cs : List Char) : Option (String × List Char) :=
  let w := cs.takeWhile isWord
  if w.isEmpty then none else some (String.ofList w, cs.dropWhile isWord)

/-- What may follow the name of an anchor. -/
def endsName (c : Char) : Bool :=
  isGap c || "?:,]\x7d%@\x60".toList.contains c

/-- The name of an anchor, or of a reference to one. -/
def anchorName (cs : List Char) : Except Malformed (String × List Char) :=
  match name? cs with
  | some (n, rest) => if endsName (head rest) then return (n, rest) else throw .name
  | none => throw .name

/-- Bytes written as percent signs with two digits each, and what follows them. -/
def escapedBytes : List Char → Except Malformed (Text.Utf8.Bytes × List Char)
  | '%' :: a :: b :: rest =>
    match Text.hexDigit? a, Text.hexDigit? b with
    | some x, some y => do
      let (more, after) ← escapedBytes rest
      return (UInt8.ofNat (16 * x + y) :: more, after)
    | _, _ => throw .tag
  | '%' :: _ => throw .tag
  | rest => return ([], rest)

theorem length_of_escapedBytes {cs after : List Char} {bytes : Text.Utf8.Bytes}
    (h : escapedBytes cs = .ok (bytes, after)) :
    after.length + (if head cs = '%' then 1 else 0) ≤ cs.length := by
  fun_induction escapedBytes cs generalizing bytes after with
  | case1 a b rest x y _ _ ih =>
    rcases hm : escapedBytes rest with e | ⟨more, last⟩
    · rw [hm] at h
      cases h
    · rw [hm] at h
      cases h
      have := ih hm
      simp only [List.length_cons]
      split at this <;> split <;> omega
  | case2 => cases h
  | case3 => cases h
  | case4 cs _ none_percent =>
    cases h
    match cs with
    | [] => exact Nat.le_refl 0
    | c :: rest =>
      have hc : head (c :: rest) ≠ '%' := fun hc => none_percent rest (congrArg (· :: rest) hc)
      rw [if_neg hc]
      exact Nat.le_refl _

/-- The characters of a tag, and what follows them. -/
def tagCharacters (cs : List Char) : Except Malformed (List Char × List Char) :=
  let plain := cs.takeWhile fun c => isTagCharacter c && c != '%'
  let rest := cs.dropWhile fun c => isTagCharacter c && c != '%'
  if head rest == '%' then
    match _h : escapedBytes rest with
    | .error e => throw e
    | .ok (bytes, after) =>
      match Text.Utf8.decode? bytes with
      | none => throw .tag
      | some decoded => do
        let (more, last) ← tagCharacters after
        return (plain ++ decoded ++ more, last)
  else return (plain, rest)
termination_by cs.length
decreasing_by
  have hd := (List.dropWhile_sublist (fun c => isTagCharacter c && c != '%') (l := cs)).length_le
  have hb := length_of_escapedBytes _h
  rw [if_pos (eq_of_beq ‹_›)] at hb
  exact Nat.lt_of_lt_of_le hb hd

/-- The part of a tag after its handle: not empty, whatever it stands for. -/
def suffix (cs : List Char) : Except Malformed (String × List Char) :=
  if isTagCharacter (head cs) then
    (tagCharacters cs).map fun p => (String.ofList p.1, p.2)
  else throw .tag

/-- A handle of tags: one exclamation mark, or a name between two. -/
def tagHandle (cs : List Char) : Except Malformed (String × List Char) :=
  match cs with
  | '!' :: rest =>
    if head rest == ' ' then return ("!", rest)
    else
      match rest.dropWhile isWord with
      | '!' :: after => return ("!" ++ String.ofList (rest.takeWhile isWord) ++ "!", after)
      | _ => throw .tag
  | _ => throw .tag

/-- A tag that has begun with an exclamation mark. -/
def tag (cs : List Char) : Except Malformed (Token × List Char) := do
  let (t, rest) ←
    match cs with
    | '<' :: inside =>
      let (s, rest) ← suffix inside
      match rest with
      | '>' :: rest => pure (Token.tag none s, rest)
      | _ => throw .tag
    | _ =>
      if isGap (head cs) then pure (Token.tag none "!", cs)
      else
        let word := cs.takeWhile fun c => c != ' ' && !endsLine c
        if word.contains '!' then
          let (h, rest) ← tagHandle ('!' :: cs)
          let (s, rest) ← suffix rest
          pure (Token.tag (some h) s, rest)
        else
          let (s, rest) ← suffix cs
          pure (Token.tag (some "!") s, rest)
  if head rest == ' ' || endsLine (head rest) then return (t, rest) else throw .tag

def skipSpaces (cs : List Char) : List Char :=
  cs.dropWhile (· == ' ')

/-- A whole number in a directive; one with too many digits is refused. -/
def number (cs : List Char) : Except Failure (Nat × List Char) :=
  let ds := cs.takeWhile isDigit
  if ds.isEmpty then throw (Malformed.directive : Failure)
  else if Number.Integer.digitLimit < ds.length then throw (Unconvertible.notNumber : Failure)
  else return (Text.ofDigits 10 (ds.map fun d => d.toNat - 0x30), cs.dropWhile isDigit)

def version (cs : List Char) : Except Failure (Token × List Char) := do
  let (major, rest) ← number (skipSpaces cs)
  match rest with
  | '.' :: rest =>
    let (_, rest) ← number rest
    if head rest == ' ' || endsLine (head rest) then return (.version major, rest)
    else throw (Malformed.directive : Failure)
  | _ => throw (Malformed.directive : Failure)

def handle (cs : List Char) : Except Malformed (Token × List Char) := do
  let (h, rest) ← tagHandle (skipSpaces cs)
  if head rest != ' ' then throw .directive
  let (s, rest) ← suffix (skipSpaces rest)
  if head rest == ' ' || endsLine (head rest) then return (.handle h s, rest) else throw .directive

/-- A directive whose percent sign has been read, with the rest of its line. -/
def directive (cs : List Char) : Except Failure (Token × List Char) :=
  match name? cs with
  | none => throw (Malformed.directive : Failure)
  | some (n, rest) =>
    if head rest != ' ' && !endsLine (head rest) then throw (Malformed.directive : Failure)
    else do
      let (t, rest) ← match n with
        | "YAML" => version rest
        | "TAG" => (handle rest).mapError Failure.malformed
        | _ => pure (Token.otherDirective, rest.dropWhile (!isBreak ·))
      let rest := skipRemark rest
      if endsLine (head rest) then return (t, rest.tail)
      else throw (Malformed.directive : Failure)

end LoadPlan.Yaml.Property
