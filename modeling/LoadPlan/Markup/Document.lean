import LoadPlan.Markup.Doctype
import LoadPlan.Markup.Encoding
import LoadPlan.Markup.Tree

/-! Reading a whole document. -/
namespace LoadPlan.Markup

namespace Document

/-- The declaration at the head of a document, and the pieces after it. -/
def head (ls : List Lexeme) : Except Malformed (Declaration × List Lexeme) :=
  match ls with
  | .instruction body :: rest =>
    if Declaration.isHead body then (Declaration.ofBody body).map (·, rest)
    else .ok (.absent, ls)
  | _ => .ok (.absent, ls)

/-- A piece outside the root element: blanks, comments and instructions anywhere, one document type
declaration before the root, and one root. -/
def outside (d : Dialect) (standalone : Bool) (state : Entities × Bool × Builder) (l : Lexeme) :
    Except Malformed (Entities × Bool × Builder) :=
  let (es, typed, b) := state
  match l with
  | .text body => if body.all isSpace then .ok (es, typed, b.advance body) else .error .nesting
  | .literal _ => .error .nesting
  | .doctype body =>
    if typed || !b.finished.isEmpty then .error .nesting
    else (Doctype.ofBody d.stopsAtParameters standalone body).map (·, true, b.advance body)
  | .opening _ =>
    if b.finished.isEmpty then
      (b.step d es (fragment d es es.texts.length) l).map (es, true, ·)
    else .error .nesting
  | _ => (b.step d es (fragment d es es.texts.length) l).map (es, typed, ·)

def step (d : Dialect) (standalone : Bool) (state : Entities × Bool × Builder) (l : Lexeme) :
    Except Malformed (Entities × Bool × Builder) :=
  let (es, typed, b) := state
  if b.frames.isEmpty then outside d standalone state l
  else (b.step d es (fragment d es es.texts.length) l).map (es, typed, ·)

/-- The root element of a text. -/
def ofChars (d : Dialect) (cs : List Char) : Except Malformed Node := do
  if !cs.all fun c => isAllowed c.toNat then throw .character
  match Lexeme.split? cs with
  | none => throw .unclosed
  | some ls =>
    let (declaration, rest) ← head ls
    if !d.anyVersion && !declaration.isFirst then throw .markup
    let lines := (ls.take (ls.length - rest.length)).foldl (fun b l => b.advance l.body)
      (Builder.start .initial)
    let (_, _, b) ← rest.foldlM (step d declaration.standalone) (.none, false, lines)
    match ← b.finish with
    | [root] => return root
    | _ => throw .nesting

/-- The root element of a document. -/
def ofBytes (d : Dialect) (bytes : Text.Utf8.Bytes) : Except Malformed Node :=
  match Encoding.decode? d.heedsEncoding bytes with
  | some cs => ofChars d cs
  | none => .error .encoding

end Document

end LoadPlan.Markup
