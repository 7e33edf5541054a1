import LoadPlan.Yaml.Graph
import LoadPlan.Yaml.Scalar.Conversion

/-! The content of a document: its value, with the entries if it is a mapping. -/
namespace LoadPlan.Yaml

inductive Content
  | value (v : Value)
  | mapping (entries : List (Value × Value))
  deriving Repr, Inhabited

/-- The collections whose parts have still to be valued, and all that were met. Parts are valued level
by level. -/
structure Agenda where
  waiting : List Nat
  met : List Nat
  deriving Repr

abbrev Valuing := StateT Agenda (Except Failure)

namespace Valuing

def note (n : Nat) : Valuing Unit :=
  modify fun a => if a.met.contains n then a else ⟨a.waiting ++ [n], n :: a.met⟩

/-- The text of a node. A mapping may have an entry that stands for the whole of it. -/
def textOf (g : Graph) : Nat → Nat → Except Failure Scalar
  | 0, _ => throw (Malformed.shape : Failure)
  | depth + 1, n =>
    match g.node n with
    | .scalar _ s => return s
    | .sequence .. => throw (Malformed.shape : Failure)
    | .mapping _ entries =>
      match entries.find? fun e => (g.node e.1).tag == .standing with
      | some e => textOf g depth e.2
      | none => throw (Malformed.shape : Failure)

/-- The value of a node; the parts of a collection have to wait. -/
def valueOf (g : Graph) (n : Nat) : Valuing Value := do
  match (g.node n).tag with
  | .sequence | .orderedMapping | .pairs =>
    note n
    return .list
  | .mapping =>
    note n
    return .mapping
  | .set =>
    note n
    return .set
  | .merge | .standing | .unknown => throw (Malformed.unknownTag : Failure)
  | tag =>
    let s ← textOf g g.size n
    Conversion.value tag s

/-- The entries of a mapping, those of mappings merged into it first. Of several mappings merged together
the first counts most and comes last. A mapping merged into itself adds nothing. -/
def merged (g : Graph) : Nat → List Nat → Nat → Except Failure (List (Nat × Nat))
  | 0, _, _ => return []
  | depth + 1, above, n =>
    if above.contains n then return []
    else match g.node n with
      | .mapping _ entries => do
        let isMerge (e : Nat × Nat) : Bool := (g.node e.1).tag == .merge
        let added ← (entries.filter isMerge).mapM fun e =>
          match g.node e.2 with
          | .mapping .. => merged g depth (n :: above) e.2
          | .sequence _ items => do
            let parts ← items.mapM fun i =>
              match g.node i with
              | .mapping .. => merged g depth (n :: above) i
              | _ => throw (Malformed.merge : Failure)
            return parts.reverse.flatten
          | .scalar .. => throw (Malformed.merge : Failure)
        return added.flatten ++ entries.filter fun e => !isMerge e
      | _ => throw (Malformed.shape : Failure)

/-- The value of a key. Collections are no keys. -/
def keyOf (g : Graph) (n : Nat) : Valuing Value := do
  let k ← match g.node n with
    | .scalar .standing s => pure (Value.text s)
    | _ => valueOf g n
  if k.isCollection then throw (Malformed.keyKind : Failure)
  return k

/-- The values of the entries of a mapping. -/
def entriesOf (g : Graph) (n : Nat) : Valuing (List (Value × Value)) := do
  (← merged g (g.size + 1) [] n).mapM fun e => do
    let k ← keyOf g e.1
    let v ← valueOf g e.2
    return (k, v)

/-- The only entry of a mapping in a list of entries. -/
def soleEntry (g : Graph) (n : Nat) : Valuing Unit := do
  match g.node n with
  | .mapping _ [(k, v)] =>
    let _ ← valueOf g k
    let _ ← valueOf g v
  | _ => throw (Malformed.shape : Failure)

/-- The items of a sequence. -/
def itemsOf (g : Graph) (n : Nat) : Except Failure (List Nat) :=
  match g.node n with
  | .sequence _ items => return items
  | _ => throw (Malformed.shape : Failure)

/-- Value the parts of a collection. -/
def partsOf (g : Graph) (n : Nat) : Valuing Unit := do
  match (g.node n).tag with
  | .orderedMapping | .pairs =>
    for i in ← itemsOf g n do soleEntry g i
  | .sequence =>
    for i in ← itemsOf g n do
      let _ ← valueOf g i
  | _ =>
    let _ ← entriesOf g n

/-- Value the parts of all collections that wait, and of those met on the way. -/
def rest (g : Graph) : Nat → Valuing Unit
  | 0 => return ()
  | steps + 1 => do
    match (← get).waiting with
    | [] => return ()
    | n :: waiting =>
      modify fun a => { a with waiting }
      partsOf g n
      rest g steps

/-- The content of a root node. -/
def contentOf (g : Graph) (root : Nat) : Valuing Content := do
  let v ← valueOf g root
  match v with
  | .mapping =>
    modify fun a => { a with waiting := [] }
    let entries ← entriesOf g root
    rest g g.size
    return .mapping entries
  | v =>
    rest g g.size
    return .value v

end Valuing

/-- The content of a text; one without a document has the content null. -/
def Content.ofText (cs : List Char) : Except Failure Content := do
  let (g, root) ← Graph.ofText cs
  match root with
  | none => return .value .null
  | some n => (Valuing.contentOf g n).run' ⟨[], []⟩

end LoadPlan.Yaml
