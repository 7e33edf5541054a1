import LoadPlan.Yaml.Lexer
import LoadPlan.Yaml.Tag

/-! The nodes of a document, made from its pieces. Names let a node stand in several places, also inside itself,
so nodes refer to one another by number. -/
namespace LoadPlan.Yaml

inductive Node
  | scalar (tag : Tag) (s : Scalar)
  | sequence (tag : Tag) (items : List Nat)
  | mapping (tag : Tag) (entries : List (Nat × Nat))
  deriving Repr

def Node.tag : Node → Tag
  | .scalar t _ => t
  | .sequence t _ => t
  | .mapping t _ => t

abbrev Graph := Array Node

/-- A node of a graph, an empty text if there is none of that number. -/
def Graph.node (g : Graph) (n : Nat) : Node :=
  g.getD n (.scalar .null "")

/-- The pieces to come, the nodes so far, and the meanings of names and of handles of tags. -/
structure Gathered where
  tokens : List Token
  graph : Graph
  anchors : List (String × Nat)
  handles : List (String × String)
  deriving Repr

abbrev Gathering := StateT Gathered (Except Failure)

namespace Gathering

/-- The next piece, none at the end. -/
def next : Gathering (Option Token) := do
  match (← get).tokens with
  | [] => return none
  | .broken cause :: _ => throw cause
  | t :: _ => return some t

def skip : Gathering Unit :=
  modify fun c => { c with tokens := c.tokens.tail }

/-- Take the next piece if it is a given one. -/
def accept (t : Token) : Gathering Bool := do
  if (← next) == some t then
    skip
    return true
  else return false

def expect (t : Token) : Gathering Unit := do
  if !(← accept t) then throw (Malformed.sequence : Failure)

/-- Whether the next piece is one of these. -/
def nextIsIn (ts : List Token) : Gathering Bool := do
  match ← next with
  | some t => return ts.contains t
  | none => return false

/-- Add a node, under a name if there is one. -/
def add (anchor : Option String) (n : Node) : Gathering Nat := do
  let c ← get
  let named := match anchor with
    | some a => (a, c.graph.size) :: c.anchors
    | none => c.anchors
  set { c with graph := c.graph.push n, anchors := named }
  return c.graph.size

def replace (number : Nat) (n : Node) : Gathering Unit :=
  modify fun c => { c with graph := c.graph.setIfInBounds number n }

/-- A node where nothing is written. -/
def empty : Gathering Nat :=
  add none (.scalar .null "")

/-- The anchor and the tag before the content of a node, in either order. -/
structure Properties where
  anchor : Option String
  tag : Option (Option String × String)
  deriving DecidableEq, Repr

def anchor? : Gathering (Option String) := do
  match ← next with
  | some (.anchor name) =>
    skip
    return some name
  | _ => return none

def tag? : Gathering (Option (Option String × String)) := do
  match ← next with
  | some (.tag handle suffix) =>
    skip
    return some (handle, suffix)
  | _ => return none

def properties : Gathering Properties := do
  match ← anchor? with
  | some a => return ⟨some a, ← tag?⟩
  | none =>
    match ← tag? with
    | some t => return ⟨← anchor?, some t⟩
    | none => return ⟨none, none⟩

/-- The full name of a tag. -/
def tagName (handle : Option String) (suffix : String) : Gathering String := do
  match handle with
  | none => return suffix
  | some h =>
    match (← get).handles.lookup h with
    | some meaning => return meaning ++ suffix
    | none => throw (Malformed.tag : Failure)

/-- The tag of a node, none if it is to be told from the content. -/
def givenTag (p : Properties) : Gathering (Option String) := do
  match p.tag with
  | none => return none
  | some (handle, suffix) => some <$> tagName handle suffix

/-- The tag of a collection: one that says nothing leaves the usual one. -/
def collectionTag (given : Option String) (usual : Tag) : Tag :=
  match given with
  | none => usual
  | some "!" => usual
  | some name => .ofName name

/-- The tag of a scalar. The one that says nothing makes it plain, even in quotes. -/
def scalarTag (given : Option String) (plain : Bool) (text : String) : Tag :=
  match given with
  | none => if plain then .ofScalar text else .text
  | some "!" => .ofScalar text
  | some name => .ofName name

def checkAnchor (anchor : Option String) : Gathering Unit := do
  match anchor with
  | none => return ()
  | some a => if ((← get).anchors.lookup a).isSome then throw (Malformed.reference : Failure)

/-- No content: an empty scalar, but only with properties. -/
def nothing (p : Properties) (given : Option String) : Gathering Nat := do
  if p = ⟨none, none⟩ then throw (Malformed.sequence : Failure)
  checkAnchor p.anchor
  add p.anchor (.scalar (scalarTag given true "") "")

/-- A sequence. Its name is known inside it. -/
def sequenceOf (anchor given : Option String) (items : Gathering (List Nat)) : Gathering Nat := do
  checkAnchor anchor
  let tag := collectionTag given .sequence
  let n ← add anchor (.sequence tag [])
  replace n (.sequence tag (← items))
  return n

def mappingOf (anchor given : Option String) (entries : Gathering (List (Nat × Nat))) :
    Gathering Nat := do
  checkAnchor anchor
  let tag := collectionTag given .mapping
  let n ← add anchor (.mapping tag [])
  replace n (.mapping tag (← entries))
  return n

/-- A part of a collection, empty if one of some pieces comes next. -/
def orEmpty (ends : List Token) (part : Gathering Nat) : Gathering Nat := do
  if ← nextIsIn ends then empty else part

/-- The value of an entry, empty without a colon. -/
def valueOrEmpty (ends : List Token) (part : Gathering Nat) : Gathering Nat := do
  if ← accept .value then orEmpty ends part else empty

mutual

/-- A node. Blocks may stand in blocks only, and items without an indentation of their own only in
mappings. The depth bounds the recursion. -/
def node (inBlock inMapping : Bool) : Nat → Gathering Nat
  | 0 => throw (Malformed.sequence : Failure)
  | depth + 1 => do
    match ← next with
    | some (.reference name) =>
      skip
      match (← get).anchors.lookup name with
      | some n => return n
      | none => throw (Malformed.reference : Failure)
    | _ =>
      let p ← properties
      let given ← givenTag p
      match ← next with
      | some (.scalar s plain) =>
        skip
        checkAnchor p.anchor
        add p.anchor (.scalar (scalarTag given plain s.text) s)
      | some .flowSequence =>
        skip
        sequenceOf p.anchor given (flowItems true depth)
      | some .flowMapping =>
        skip
        mappingOf p.anchor given (flowEntries true depth)
      | some .item =>
        if inMapping then sequenceOf p.anchor given (looseItems depth) else nothing p given
      | some .blockSequence =>
        if inBlock then
          skip
          sequenceOf p.anchor given (blockItems depth)
        else nothing p given
      | some .blockMapping =>
        if inBlock then
          skip
          mappingOf p.anchor given (blockEntries depth)
        else nothing p given
      | _ => nothing p given

/-- The items of a block of their own. -/
def blockItems : Nat → Gathering (List Nat)
  | 0 => throw (Malformed.sequence : Failure)
  | depth + 1 => do
    if ← accept .item then
      let n ← orEmpty [.item, .blockEnd] (node true false depth)
      return n :: (← blockItems depth)
    else
      expect .blockEnd
      return []

/-- The items of a sequence that stands at the indentation of the mapping it belongs to. -/
def looseItems : Nat → Gathering (List Nat)
  | 0 => throw (Malformed.sequence : Failure)
  | depth + 1 => do
    if ← accept .item then
      let n ← orEmpty [.item, .key, .value, .blockEnd] (node true false depth)
      return n :: (← looseItems depth)
    else return []

def blockEntries : Nat → Gathering (List (Nat × Nat))
  | 0 => throw (Malformed.sequence : Failure)
  | depth + 1 => do
    if ← accept .key then
      let k ← orEmpty [.key, .value, .blockEnd] (node true true depth)
      let v ← valueOrEmpty [.key, .value, .blockEnd] (node true true depth)
      return (k, v) :: (← blockEntries depth)
    else
      expect .blockEnd
      return []

/-- The items of a flow sequence; a key makes a mapping of one entry. A comma may come last. -/
def flowItems (first : Bool) : Nat → Gathering (List Nat)
  | 0 => throw (Malformed.sequence : Failure)
  | depth + 1 => do
    if ← accept .flowSequenceEnd then return []
    if !first then expect .comma
    if ← accept .key then
      let k ← orEmpty [.value, .comma, .flowSequenceEnd] (node false false depth)
      let v ← valueOrEmpty [.comma, .flowSequenceEnd] (node false false depth)
      let n ← add none (.mapping .mapping [(k, v)])
      return n :: (← flowItems false depth)
    else if ← accept .flowSequenceEnd then return []
    else
      let n ← node false false depth
      return n :: (← flowItems false depth)

/-- The entries of a flow mapping; a node without a colon is a key without a value. -/
def flowEntries (first : Bool) : Nat → Gathering (List (Nat × Nat))
  | 0 => throw (Malformed.sequence : Failure)
  | depth + 1 => do
    if ← accept .flowMappingEnd then return []
    if !first then expect .comma
    if ← accept .key then
      let k ← orEmpty [.value, .comma, .flowMappingEnd] (node false false depth)
      let v ← valueOrEmpty [.comma, .flowMappingEnd] (node false false depth)
      return (k, v) :: (← flowEntries false depth)
    else if ← accept .flowMappingEnd then return []
    else
      let k ← node false false depth
      let v ← empty
      return (k, v) :: (← flowEntries false depth)

end

/-- The handles that need no directive. -/
def usualHandles : List (String × String) := [("!", "!"), ("!!", Tag.family)]

def isDirective : Token → Bool
  | .version _ => true
  | .handle .. => true
  | .otherDirective => true
  | _ => false

/-- Take a directive into account: one version at most, of the first generation, and one meaning for
a handle. -/
def direct (state : Bool × List (String × String)) (t : Token) :
    Except Malformed (Bool × List (String × String)) :=
  let (versioned, handles) := state
  match t with
  | .version major => if versioned || major != 1 then throw .directive else return (true, handles)
  | .handle name meaning =>
    if (handles.lookup name).isSome then throw .directive
    else return (versioned, (name, meaning) :: handles)
  | _ => return state

def directives : Gathering Unit := do
  let c ← get
  match (c.tokens.takeWhile isDirective).foldlM direct (false, []) with
  | .error m => throw (m : Failure)
  | .ok (_, handles) =>
    set { c with tokens := c.tokens.dropWhile isDirective, handles := handles ++ usualHandles }

/-- The root of a document with a start mark, which may have no content. -/
def marked (depth : Nat) : Gathering Nat := do
  directives
  expect .documentStart
  match ← next with
  | none => empty
  | some t =>
    if isDirective t || t == .documentStart || t == .documentEnd then empty
    else node true false depth

/-- The root of the only document, if there is one. -/
def document (depth : Nat) : Gathering (Option Nat) := do
  match ← next with
  | none => return none
  | some t =>
    let root ← if isDirective t || t == .documentStart then marked depth else node true false depth
    modify fun c => { c with tokens := c.tokens.dropWhile (· == .documentEnd) }
    match ← next with
    | none => return some root
    | some _ => throw (Malformed.documents : Failure)

end Gathering

/-- The nodes of a text and the root among them, if there is one. -/
def Graph.ofText (cs : List Char) : Except Failure (Graph × Option Nat) :=
  let tokens := Token.ofText cs
  (Gathering.document (2 * tokens.length + 2) ⟨tokens, #[], [], Gathering.usualHandles⟩).map
    fun (root, c) => (c.graph, root)

end LoadPlan.Yaml
