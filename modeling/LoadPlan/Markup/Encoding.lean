import LoadPlan.Markup.Codepage
import LoadPlan.Markup.Instruction
import LoadPlan.Markup.Lexeme

/-! The bytes of a document as characters. -/
namespace LoadPlan.Markup.Encoding

open LoadPlan.Text (Utf8.decode?)
open LoadPlan.Text.Utf8 (Bytes)

/-- Pairs of bytes as numbers. -/
def units? (littleEndian : Bool) : Bytes → Option (List Nat)
  | [] => some []
  | [_] => none
  | a :: b :: rest =>
    let unit := if littleEndian then b.toNat * 256 + a.toNat else a.toNat * 256 + b.toNat
    (units? littleEndian rest).map (unit :: ·)

/-- The characters of 16-bit units; a high surrogate stands before a low one. -/
def ofUnits? : List Nat → Option (List Char)
  | [] => some []
  | u :: rest =>
    if 0xD800 ≤ u && u ≤ 0xDBFF then
      match rest with
      | v :: rest =>
        if 0xDC00 ≤ v && v ≤ 0xDFFF then
          (ofUnits? rest).map (Char.ofNat (0x10000 + (u - 0xD800) * 0x400 + (v - 0xDC00)) :: ·)
        else none
      | [] => none
    else if 0xDC00 ≤ u && u ≤ 0xDFFF then none
    else (ofUnits? rest).map (Char.ofNat u :: ·)

def utf16? (littleEndian : Bool) (bytes : Bytes) : Option (List Char) :=
  (units? littleEndian bytes).bind ofUnits?

def latin1 (bytes : Bytes) : List Char :=
  bytes.map fun b => Char.ofNat b.toNat

def ascii? (bytes : Bytes) : Option (List Char) :=
  if bytes.all (·.toNat < 0x80) then some (latin1 bytes) else none

/-- The encoding a document names in its declaration. -/
def declared? (cs : List Char) : Option String :=
  match cs with
  | '<' :: '?' :: rest =>
    match cutAfter "?>".toList rest with
    | some (body, _) =>
      if Declaration.isHead body then
        match Declaration.ofBody body with
        | .ok d => d.encoding
        | .error _ => none
      else none
    | none => none
  | _ => none

/-- The encodings that a reader knows without looking up their names. -/
def isBuiltin (name : String) : Bool :=
  ["UTF-8", "ISO-8859-1", "US-ASCII", "UTF-16", "UTF-16BE", "UTF-16LE"].contains
    (String.ofList (name.toList.map Char.toUpper))

/-- Read bytes in an encoding given by name. Readers look up further names each in a list of its own. -/
def named? (strict : Bool) (name : String) (bytes : Bytes) : Option (List Char) :=
  match String.ofList (name.toList.map Char.toUpper) with
  | "UTF-8" => Utf8.decode? bytes
  | "ISO-8859-1" => some (latin1 bytes)
  | "US-ASCII" => ascii? bytes
  | "UTF8" => if strict then ascii? bytes else Utf8.decode? bytes
  | _ =>
    let page := if strict then Codepage.ofName? name else Codepage.ofRegistered? name
    page.bind (·.decode? bytes)

/-- Read bytes in the encoding that is declared in them, UTF-8 by default. -/
def bytewise? (strict : Bool) (bytes : Bytes) : Option (List Char) :=
  match declared? (latin1 bytes) with
  | some name => named? strict name bytes
  | none => Utf8.decode? bytes

/-- Whether a document in 16-bit units names no other encoding. -/
def agrees (littleEndian : Bool) (cs : List Char) : Bool :=
  match declared? cs with
  | none => true
  | some name =>
    let name := String.ofList (name.toList.map Char.toUpper)
    name == "UTF-16" || name == (if littleEndian then "UTF-16LE" else "UTF-16BE")

/-- Read 16-bit units, in a strict reading only if they do not declare to be something else. -/
def wide? (strict littleEndian : Bool) (bytes : Bytes) : Option (List Char) :=
  (utf16? littleEndian bytes).filter fun cs => !strict || agrees littleEndian cs

/-- How the bytes of a document begin. -/
inductive Form
  /-- With a byte order mark of UTF-8. -/
  | marked
  /-- In 16-bit units. -/
  | wide (littleEndian : Bool)
  | bare

/-- A byte order mark, or the shape of the first two characters, tells 16-bit units. A mark is left out. -/
def form (bytes : Bytes) : Form × Bytes :=
  match bytes with
  | 0xEF :: 0xBB :: 0xBF :: rest => (.marked, rest)
  | 0xFF :: 0xFE :: rest => (.wide true, rest)
  | 0xFE :: 0xFF :: rest => (.wide false, rest)
  | 0x3C :: 0x00 :: _ => (.wide true, bytes)
  | 0x00 :: 0x3C :: _ => (.wide false, bytes)
  | _ => (.bare, bytes)

/-- Read the bytes of a document. In a strict reading the declaration is heeded also after a mark. -/
def decode? (strict : Bool) (bytes : Bytes) : Option (List Char) :=
  match form bytes with
  | (.marked, rest) => if strict then bytewise? strict rest else Utf8.decode? rest
  | (.wide littleEndian, rest) => wide? strict littleEndian rest
  | (.bare, rest) => bytewise? strict rest

/-- The encoding that a document declares, if a strict reading does not know it by its name. -/
def unknown? (bytes : Bytes) : Option String :=
  let declared := match form bytes with
    | (.wide littleEndian, rest) => (utf16? littleEndian rest).bind declared?
    | (_, rest) => declared? (latin1 rest)
  declared.filter fun name =>
    !isBuiltin name && (Codepage.ofName? name).isNone && !Codepage.isForeign name

end LoadPlan.Markup.Encoding
