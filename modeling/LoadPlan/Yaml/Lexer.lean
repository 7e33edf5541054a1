import LoadPlan.Yaml.Property
import LoadPlan.Yaml.Scalar.Block
import LoadPlan.Yaml.Scalar.Plain
import LoadPlan.Yaml.Scalar.Quoted

/-! The pieces of a text. The indentation of blocks becomes pieces of its own, and a key is known as one only
when its colon comes. -/
namespace LoadPlan.Yaml

/-- A piece that turns out to begin a key if a colon comes soon after it. -/
structure Candidate where
  /-- How many pieces come before it. -/
  position : Nat
  /-- It stands where a block mapping needs a key. -/
  required : Bool
  index : Nat
  line : Nat
  column : Nat
  deriving Repr

structure Lexer where
  cursor : Cursor
  tokens : Array Token
  /-- The column of the innermost block, and those of the blocks around it. -/
  indent : Int
  outer : List Int
  /-- How many flow collections are open. -/
  flow : Nat
  /-- Whether a key may begin here without an indicator. -/
  keyAllowed : Bool
  /-- The candidates, by the number of flow collections around them. -/
  candidates : List (Nat × Candidate)
  deriving Repr

namespace Lexer

def start (cs : List Char) : Lexer :=
  ⟨.start cs, #[], -1, [], 0, true, []⟩

def inFlow (l : Lexer) : Bool := l.flow != 0

def push (l : Lexer) (t : Token) : Lexer :=
  { l with tokens := l.tokens.push t }

/-- Put a piece before those from a position on. -/
def insert (l : Lexer) (position : Nat) (t : Token) : Lexer :=
  { l with tokens := (l.tokens.extract 0 position).push t ++ l.tokens.extract position l.tokens.size }

/-- Go on to where some last part of the text is left. -/
def goTo (l : Lexer) (rest : List Char) : Lexer :=
  { l with cursor := l.cursor.skipTo rest }

/-- The longest distance between a key and its colon. -/
def keyLimit : Nat := 1024

/-- Give up candidates on other lines and those too far away. -/
def dropStale (l : Lexer) : Except Failure Lexer :=
  let stale (k : Candidate) : Bool :=
    k.line != l.cursor.line || keyLimit < l.cursor.index - k.index
  if l.candidates.any fun k => stale k.2 && k.2.required then throw (Malformed.key : Failure)
  else return { l with candidates := l.candidates.filter fun k => !stale k.2 }

/-- Give up the candidate at the present depth. -/
def dropCandidate (l : Lexer) : Except Failure Lexer :=
  match l.candidates.lookup l.flow with
  | none => return l
  | some k =>
    if k.required then throw (Malformed.key : Failure)
    else return { l with candidates := l.candidates.filter (·.1 != l.flow) }

/-- Note that the next piece may begin a key. -/
def addCandidate (l : Lexer) : Except Failure Lexer :=
  if l.keyAllowed then do
    let required := !l.inFlow && l.indent == l.cursor.column
    let l ← l.dropCandidate
    let c := l.cursor
    return { l with
      candidates := (l.flow, ⟨l.tokens.size, required, c.index, c.line, c.column⟩) :: l.candidates }
  else return l

/-- Close the blocks that are indented further than a column. -/
def unwind (column : Int) (l : Lexer) : List Int → Lexer
  | [] => { l with outer := [] }
  | o :: os =>
    if column < l.indent then unwind column { l.push .blockEnd with indent := o } os
    else { l with outer := o :: os }

/-- Close blocks as the indentation asks for; within flow collections it does not count. -/
def closeBlocks (l : Lexer) (column : Int) : Lexer :=
  if l.inFlow then l else l.unwind column l.outer

/-- Begin a block at a column, unless one is open there; its piece comes at a position. -/
def openBlock (l : Lexer) (column position : Nat) (t : Token) : Lexer :=
  if l.indent < (column : Int) then
    { l.insert position t with indent := column, outer := l.indent :: l.outer }
  else l

/-- Skip what stands between pieces, and a mark of byte order at the very start. A line end outside flow
collections allows a key. -/
def skipGap (l : Lexer) : Lexer :=
  let c := l.cursor
  let c := if c.index == 0 && c.next == '\ufeff' then c.step else c
  let (rest, ended) := skipLines c.rest
  { l with cursor := c.skipTo rest, keyAllowed := l.keyAllowed || (ended && !l.inFlow) }

/-- Be ready for the next piece. -/
def ready (l : Lexer) : Except Failure Lexer := do
  let l ← l.skipGap.dropStale
  return l.closeBlocks l.cursor.column

/-- A mark of one character. -/
def mark (l : Lexer) (t : Token) : Lexer :=
  { l.push t with cursor := l.cursor.step }

def documentMark (l : Lexer) (t : Token) : Except Failure Lexer := do
  let l ← (l.closeBlocks (-1)).dropCandidate
  return { l.push t with cursor := l.cursor.skip 3, keyAllowed := false }

def directive (l : Lexer) : Except Failure Lexer := do
  let l ← (l.closeBlocks (-1)).dropCandidate
  let (t, rest) ← Property.directive l.cursor.rest.tail
  return { (l.push t).goTo rest with keyAllowed := false }

def openFlow (l : Lexer) (t : Token) : Except Failure Lexer := do
  let l ← l.addCandidate
  return { l.mark t with flow := l.flow + 1, keyAllowed := true }

def closeFlow (l : Lexer) (t : Token) : Except Failure Lexer := do
  let l ← l.dropCandidate
  return { l.mark t with flow := l.flow - 1, keyAllowed := false }

def comma (l : Lexer) : Except Failure Lexer := do
  let l ← l.dropCandidate
  return { l.mark .comma with keyAllowed := true }

/-- A block may begin here. -/
def mayOpen (l : Lexer) (t : Token) : Except Failure Lexer :=
  if l.inFlow then return l
  else if l.keyAllowed then return l.openBlock l.cursor.column l.tokens.size t
  else throw (Malformed.indicator : Failure)

def item (l : Lexer) : Except Failure Lexer := do
  let l ← l.mayOpen .blockSequence
  let l ← l.dropCandidate
  return { l.mark .item with keyAllowed := true }

def key (l : Lexer) : Except Failure Lexer := do
  let l ← l.mayOpen .blockMapping
  let l ← l.dropCandidate
  return { l.mark .key with keyAllowed := !l.inFlow }

/-- A colon. It makes a key of the candidate at this depth. -/
def value (l : Lexer) : Except Failure Lexer :=
  match l.candidates.lookup l.flow with
  | some k =>
    let l := { l with candidates := l.candidates.filter (·.1 != l.flow), keyAllowed := false }
    let l := l.insert k.position .key
    let l := if l.inFlow then l else l.openBlock k.column k.position .blockMapping
    return l.mark .value
  | none => do
    let l ← l.mayOpen .blockMapping
    let l ← l.dropCandidate
    return { l.mark .value with keyAllowed := !l.inFlow }

/-- A piece that may begin a key, made from the text after its first character. -/
def simple (l : Lexer) (read : List Char → Except Failure (Token × List Char)) :
    Except Failure Lexer := do
  let l ← l.addCandidate
  let (t, rest) ← read l.cursor.rest.tail
  return { (l.push t).goTo rest with keyAllowed := false }

def quoted (double : Bool) (cs : List Char) : Except Failure (Token × List Char) := do
  let (points, rest) ← Quoted.read double cs
  return (.scalar (.ofPoints points) false, rest)

def named (make : String → Token) (cs : List Char) : Except Failure (Token × List Char) := do
  let (name, rest) ← (Property.anchorName cs).mapError Failure.malformed
  return (make name, rest)

def tagged (cs : List Char) : Except Failure (Token × List Char) :=
  (Property.tag cs).mapError Failure.malformed

def block (l : Lexer) (folds : Bool) : Except Failure Lexer := do
  let l ← l.dropCandidate
  let (text, rest) ← (Block.read folds l.indent l.cursor.rest.tail).mapError Failure.malformed
  return { (l.push (.scalar (.ofChars text) false)).goTo rest with keyAllowed := true }

def plain (l : Lexer) : Except Failure Lexer := do
  let l ← l.addCandidate
  let (text, cursor, ended) := Plain.read l.inFlow (l.indent + 1) l.cursor false
  return { l.push (.scalar (.ofChars text) true) with cursor, keyAllowed := ended }

/-- Read the next piece. -/
def piece (l : Lexer) : Except Failure Lexer :=
  let c := l.cursor
  let gap := isGap c.second
  if c.column == 0 && c.next == '%' then l.directive
  else if c.atMarker '-' then l.documentMark .documentStart
  else if c.atMarker '.' then l.documentMark .documentEnd
  else match c.next with
    | '[' => l.openFlow .flowSequence
    | '\x7b' => l.openFlow .flowMapping
    | ']' => l.closeFlow .flowSequenceEnd
    | '\x7d' => l.closeFlow .flowMappingEnd
    | ',' => l.comma
    | '*' => l.simple (named .reference)
    | '&' => l.simple (named .anchor)
    | '!' => l.simple tagged
    | '\x27' => l.simple (quoted false)
    | '"' => l.simple (quoted true)
    | c =>
      if c == '-' && gap then l.item
      else if c == '?' && (l.inFlow || gap) then l.key
      else if c == ':' && (l.inFlow || gap) then l.value
      else if (c == '|' || c == '>') && !l.inFlow then l.block (c == '>')
      else if Plain.begins l.inFlow c l.cursor.second then l.plain
      else throw (Malformed.character : Failure)

/-- The pieces at the end of the text. -/
def finish (l : Lexer) : Array Token :=
  match (l.closeBlocks (-1)).dropCandidate with
  | .ok l => l.tokens
  | .error e => l.tokens.push (.broken e)

/-- All pieces from here on. A piece takes up at least one character; one that took up none would be an
error. -/
def run (l : Lexer) : Array Token :=
  match l.ready with
  | .error e => l.tokens.push (.broken e)
  | .ok there =>
    if there.cursor.rest.isEmpty then there.finish
    else match there.piece with
      | .error e => there.tokens.push (.broken e)
      | .ok next =>
        if next.cursor.rest.length < l.cursor.rest.length then run next
        else next.tokens.push (.broken (Malformed.character : Failure))
termination_by l.cursor.rest.length

end Lexer

/-- The pieces of a text. -/
def Token.ofText (cs : List Char) : List Token :=
  if cs.all isAllowed then (Lexer.start cs).run.toList
  else [.broken (Malformed.character : Failure)]

end LoadPlan.Yaml
