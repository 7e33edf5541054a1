import LoadPlan.Markup.Instruction
import LoadPlan.Markup.Reference

/-! Document type declarations, read for the entities they declare and the rules for attributes. -/
namespace LoadPlan.Markup

namespace Doctype

/-- The replacement text of an entity: characters given by number are put in, references to entities
stay, and references to parameters may not occur. -/
def replacement (cs : List Char) : Except Malformed (List Char) := do
  let ps ← Reference.pieces cs
  let parts ← ps.mapM fun p => match p with
    | .plain c => if c = '%' then .error .markup else .ok [c]
    | .coded c => .ok [c]
    | .entity name => .ok ('&' :: name.toList ++ [';'])
  return parts.flatten

/-- Blanks at the start of a text, at least one. -/
def blank? (cs : List Char) : Option (List Char) :=
  match cs with
  | c :: rest => if isSpace c then some (rest.dropWhile isSpace) else none
  | [] => none

def word? (w : String) (cs : List Char) : Option (List Char) :=
  if w.toList.isPrefixOf cs then some (cs.drop w.length) else none

/-- A quoted text after blanks. -/
def literal? (cs : List Char) : Option (List Char × List Char) :=
  (blank? cs).bind Tag.quoted?

/-- The place of something kept in another file. -/
def external? (cs : List Char) : Option (List Char) :=
  match word? "SYSTEM" cs with
  | some rest => (literal? rest).map Prod.snd
  | none =>
    match word? "PUBLIC" cs with
    | some rest => (literal? rest).bind fun p => (literal? p.2).map Prod.snd
    | none => none

/-- The name at the start of a text, and what follows. -/
def entityName? (cs : List Char) : Option (String × List Char) :=
  let name := cs.takeWhile isNameChar
  if isName name then some (String.ofList name, cs.dropWhile isNameChar) else none

/-- Add the first declaration of an entity. -/
def declare (es : Entities) (name : String) (text : Option (List Char)) : Entities :=
  if (es.texts.lookup name).isSome || es.outside.contains name then es
  else match text with
    | some t => { es with texts := es.texts ++ [(name, t)] }
    | none => { es with outside := es.outside ++ [name] }

/-- The value of an entity as it is written: a quoted text, or a place elsewhere. -/
def entityValue? (cs : List Char) : Option (Option (List Char) × List Char) :=
  match Tag.quoted? cs with
  | some (value, after) => some (some value, after)
  | none => (external? cs).map (none, ·)

/-- An entity kept elsewhere may name the notation it is written in. -/
def afterEntity (isText : Bool) (cs : List Char) : Bool :=
  cs.all isSpace ||
    !isText &&
      match ((blank? cs).bind (word? "NDATA")).bind blank? with
      | some rest =>
        match entityName? rest with
        | some (_, after) => after.all isSpace
        | none => false
      | none => false

def orMalformed {α : Type} (x : Option α) : Except Malformed α :=
  match x with
  | some a => .ok a
  | none => .error .markup

/-- What is declared. -/
inductive Declared
  /-- An entity, with its value as it is written unless it is kept elsewhere. -/
  | entity (name : String) (value : Option (List Char))
  /-- An entity for the declarations themselves. -/
  | parameter (value : Option (List Char))
  | attributes (rules : List AttributeRule)
  /-- What an element may hold, or a notation. -/
  | other

/-- The declaration of an entity, after its keyword. -/
def entity? (cs : List Char) : Option Declared := do
  match ← blank? cs with
  | '%' :: rest =>
    let (_, rest) ← (blank? rest).bind entityName?
    let (value, after) ← (blank? rest).bind entityValue?
    if after.all isSpace then some (.parameter value) else none
  | rest =>
    let (name, rest) ← entityName? rest
    let (value, after) ← (blank? rest).bind entityValue?
    if afterEntity value.isSome after then some (.entity name value) else none

/-- The word at the start of a text, and what follows. -/
def keyword (cs : List Char) : String × List Char :=
  (String.ofList (cs.takeWhile isNameChar), cs.dropWhile isNameChar)

/-- What stands between blanks. -/
def trimmed (cs : List Char) : List Char :=
  Text.stripWhere isSpace cs

/-- What follows a list of words in brackets, with bars between them. -/
def choices? (isWord : List Char → Bool) (cs : List Char) : Option (List Char) :=
  match cutAfter [')'] cs with
  | some (body, after) =>
    if (Text.parts '|' body).all fun part => isWord (trimmed part) then some after else none
  | none => none

/-- The type of an attribute: whether its value is made of words. -/
def attributeType? (cs : List Char) : Option (Bool × List Char) :=
  match cs with
  | '(' :: rest =>
    (choices? (fun word => !word.isEmpty && word.all isNamePart) rest).map (true, ·)
  | _ =>
    let (word, rest) := keyword cs
    if word = "CDATA" then some (false, rest)
    else if word = "NOTATION" then
      match blank? rest with
      | some ('(' :: rest) => (choices? isName rest).map (true, ·)
      | _ => none
    else if ["ID", "IDREF", "IDREFS", "ENTITY", "ENTITIES", "NMTOKEN", "NMTOKENS"].contains word then
      some (true, rest)
    else none

/-- What holds if an attribute is left out. -/
def attributeDefault? (cs : List Char) : Option (Option (List Char) × List Char) :=
  match cs with
  | '#' :: rest =>
    let (word, rest) := keyword rest
    if word = "REQUIRED" || word = "IMPLIED" then some (none, rest)
    else if word = "FIXED" then (literal? rest).map fun p => (some p.1, p.2)
    else none
  | _ => (Tag.quoted? cs).map fun p => (some p.1, p.2)

/-- The rule for one attribute after blanks, with its default as it is written. -/
def attributeRule? (element : QualifiedName) (cs : List Char) : Option (AttributeRule × List Char) := do
  let (name, rest) ← (blank? cs).bind Tag.name?
  let (worded, rest) ← (blank? rest).bind attributeType?
  let (default, rest) ← (blank? rest).bind attributeDefault?
  return (⟨element, name, worded, default⟩, rest)

section Length

variable {cs after : List Char}

theorem length_of_blank? (h : blank? cs = some after) : after.length < cs.length := by
  unfold blank? at h
  split at h
  · split at h <;> cases h
    exact Nat.lt_succ_of_le (List.dropWhile_sublist _).length_le
  · cases h

theorem length_of_choices? {isWord : List Char → Bool} (h : choices? isWord cs = some after) :
    after.length ≤ cs.length := by
  unfold choices? at h
  split at h
  · next hcut =>
    split at h <;> cases h
    exact length_of_cutAfter hcut
  · cases h

theorem length_of_keyword (cs : List Char) : (keyword cs).2.length ≤ cs.length :=
  (List.dropWhile_sublist _).length_le

theorem length_of_attributeType? {worded : Bool} (h : attributeType? cs = some (worded, after)) :
    after.length ≤ cs.length := by
  unfold attributeType? at h
  split at h
  · next rest =>
    obtain ⟨_, hchoices, heq⟩ := Option.map_eq_some_iff.1 h
    cases heq
    exact Nat.le_trans (length_of_choices? hchoices) (Nat.le_succ _)
  · have hword := length_of_keyword cs
    dsimp only at h
    split at h
    · cases h
      exact hword
    · split at h
      · split at h
        · next rest hblank =>
          obtain ⟨_, hchoices, heq⟩ := Option.map_eq_some_iff.1 h
          cases heq
          have hinside := Nat.le_trans (length_of_choices? hchoices) (Nat.le_succ _)
          exact Nat.le_trans hinside (Nat.le_trans (Nat.le_of_lt (length_of_blank? hblank)) hword)
        · cases h
      · split at h <;> cases h
        exact hword

theorem length_of_attributeDefault? {default : Option (List Char)}
    (h : attributeDefault? cs = some (default, after)) : after.length ≤ cs.length := by
  unfold attributeDefault? at h
  split at h
  · next rest =>
    have hword := Nat.le_trans (length_of_keyword rest) (Nat.le_succ _)
    dsimp only at h
    split at h
    · cases h
      exact hword
    · split at h
      · obtain ⟨⟨value, tail⟩, hliteral, heq⟩ := Option.map_eq_some_iff.1 h
        cases heq
        obtain ⟨_, hblank, hquoted⟩ := Option.bind_eq_some_iff.1 hliteral
        have hvalue := Nat.lt_trans (Tag.length_of_quoted? hquoted) (length_of_blank? hblank)
        exact Nat.le_trans (Nat.le_of_lt hvalue) hword
      · cases h
  · obtain ⟨_, hquoted, heq⟩ := Option.map_eq_some_iff.1 h
    cases heq
    exact Nat.le_of_lt (Tag.length_of_quoted? hquoted)

theorem length_of_attributeRule? {element : QualifiedName} {r : AttributeRule}
    (h : attributeRule? element cs = some (r, after)) : after.length < cs.length := by
  simp only [attributeRule?, Option.bind_eq_bind, Option.bind_eq_some_iff, Option.pure_def, Option.some.injEq,
    Prod.exists, Prod.mk.injEq] at h
  obtain ⟨name, rest, ⟨r₁, hr₁, hname⟩, worded, rest', ⟨r₂, hr₂, htype⟩, default, rest'', ⟨r₃, hr₃, hdefault⟩,
    -, rfl⟩ := h
  have hfirst := Nat.lt_of_le_of_lt (Tag.length_of_name? hname) (length_of_blank? hr₁)
  have hsecond := Nat.lt_of_le_of_lt (length_of_attributeType? htype) (length_of_blank? hr₂)
  have hthird := Nat.lt_of_le_of_lt (length_of_attributeDefault? hdefault) (length_of_blank? hr₃)
  exact Nat.lt_trans hthird (Nat.lt_trans hsecond hfirst)

end Length

/-- The rules in a list of attributes of an element. -/
def attributeRules? (element : QualifiedName) (cs : List Char) : Option (List AttributeRule) :=
  if cs.all isSpace then some []
  else
    match _h : attributeRule? element cs with
    | some (r, after) => (attributeRules? element after).map (r :: ·)
    | none => none
termination_by cs.length
decreasing_by exact length_of_attributeRule? _h

/-- Add a rule, unless there is one for its attribute. What its default stands for is settled here. -/
def addRule (es : Entities) (r : AttributeRule) : Except Malformed Entities := do
  let default ← r.default.mapM (es.valueUnder r)
  if (es.rule? r.element r.name).isSome then return es
  else return { es with rules := es.rules ++ [{ r with default }] }

/-- The declaration of attributes, after its keyword. -/
def attributes? (cs : List Char) : Option Declared := do
  let (element, rest) ← (blank? cs).bind Tag.name?
  let rules ← attributeRules? element rest
  return .attributes rules

/-- How a notation is known: by a public name or a place. -/
def isNotation (cs : List Char) : Bool :=
  match (blank? cs).bind entityName? with
  | some (_, rest) =>
    match blank? rest with
    | some rest =>
      match external? rest, (word? "PUBLIC" rest).bind literal? with
      | some after, _ => after.all isSpace
      | none, some (_, after) => after.all isSpace
      | none, none => false
    | none => false
  | none => false

/-- What was read last in the model of an element's content. -/
inductive Place
  /-- An opening bracket or a separator, after which a part has to come. -/
  | before
  | name
  /-- The end of a part, which a sign for repetition may follow. -/
  | part
  | after
  deriving DecidableEq, Repr

/-- The rest of a model of content: parts in brackets, all with commas or all with bars between them. The brackets
that are open are given by their separators, once these are known. -/
def isModel : List (Option Char) → Place → List Char → Bool
  | open?, place, [] => open?.isEmpty && place != .before
  | open?, .before, c :: cs =>
    if isSpace c && !open?.isEmpty then isModel open? .before cs
    else if c = '(' then isModel (none :: open?) .before cs
    else isNameStart c && !open?.isEmpty && isModel open? .name cs
  | open?, place, c :: cs =>
    if place = .name && isNamePart c then isModel open? .name cs
    else if place != .after && (c = '?' || c = '*' || c = '+') then isModel open? .after cs
    else if isSpace c then isModel open? .after cs
    else
      match open? with
      | [] => false
      | separator? :: outer =>
        if c = ')' then isModel outer .part cs
        else (c = ',' || c = '|') && separator?.all (· == c) && isModel (some c :: outer) .before cs

/-- The rest of a model of text and elements in any order, after its opening bracket. -/
def isMixed? (cs : List Char) : Option Bool :=
  (word? "#PCDATA" (cs.dropWhile isSpace)).map fun rest =>
    match cutAfter [')'] rest with
    | some (body, after) =>
      match Text.parts '|' body with
      | first :: names =>
        first.all isSpace && names.all (fun name => (QualifiedName.ofChars? (trimmed name)).isSome) &&
          match after with
          | '*' :: after => after.all isSpace
          | after => names.isEmpty && after.all isSpace
      | [] => false
    | none => false

/-- What an element may hold. -/
def isContent (cs : List Char) : Bool :=
  match (blank? cs).bind Tag.name? with
  | some (_, rest) =>
    match blank? rest with
    | some ('(' :: rest) => (isMixed? rest).getD (isModel [none] .before rest)
    | some rest =>
      let (word, after) := keyword rest
      (word == "EMPTY" || word == "ANY") && after.all isSpace
    | none => false
  | none => false

/-- A markup declaration, between its brackets. -/
def declaration? (body : List Char) : Option Declared :=
  let (word, rest) := keyword body
  if word = "ENTITY" then entity? rest
  else if word = "ATTLIST" then attributes? rest
  else if word = "ELEMENT" && isContent rest || word = "NOTATION" && isNotation rest then some .other
  else none

/-- Take note of a declaration. -/
def note (es : Entities) : Declared → Except Malformed Entities
  | .entity name value => do
    let text ← value.mapM replacement
    return declare es name text
  | .parameter value => (value.mapM replacement).map fun _ => es
  | .attributes rules => rules.foldlM addRule es
  | .other => .ok es

/-- What may stand in a bracketed subset. -/
inductive Item
  | close
  | blank
  | parameter (name : List Char)
  | markup (l : Lexeme)

/-- The item at the start of a text, and what follows. -/
def next (cs : List Char) : Except Malformed (Item × List Char) :=
  match cs with
  | [] => .error .unclosed
  | ']' :: rest => .ok (.close, rest)
  | '%' :: rest =>
    match cutAfter [';'] rest with
    | some (name, after) => .ok (.parameter name, after)
    | none => .error .reference
  | '<' :: rest =>
    match Lexeme.cut? rest with
    | some (l, after) => .ok (.markup l, after)
    | none => .error .unclosed
  | c :: rest => if isSpace c then .ok (.blank, rest) else .error .markup

theorem length_of_next {cs after : List Char} {i : Item} (h : next cs = .ok (i, after)) :
    after.length < cs.length := by
  rw [next.eq_def] at h
  split at h
  · simp at h
  · simp only [Except.ok.injEq, Prod.mk.injEq] at h
    simp [h.2]
  · split at h
    · rename_i hc
      simp only [Except.ok.injEq, Prod.mk.injEq] at h
      have hl := length_of_cutAfter hc
      rw [h.2] at hl
      exact Nat.lt_succ_of_le hl
    · simp at h
  · split at h
    · rename_i hc
      simp only [Except.ok.injEq, Prod.mk.injEq] at h
      have hl := Lexeme.length_of_cut? hc
      rw [h.2] at hl
      exact Nat.lt_succ_of_le hl
    · simp at h
  · split at h
    · simp only [Except.ok.injEq, Prod.mk.injEq] at h
      simp [h.2]
    · simp at h

/-- What is declared after an item, if declarations are still taken note of. A reference to a parameter leaves open
what else is declared. -/
def takeIn (noting : Bool) (es : Entities) : Item → Except Malformed Entities
  | .close | .blank => .ok es
  | .parameter name => if isName name then .ok { es with incomplete := true } else .error .reference
  | .markup (.comment body) => if isComment body then .ok es else .error .markup
  | .markup (.instruction body) => if Instruction.isValid body then .ok es else .error .markup
  | .markup (.opening ('!' :: body)) => do
    let declared ← orMalformed (declaration? body)
    if noting then note es declared else return es
  | .markup _ => .error .markup

def Item.isParameter : Item → Bool
  | .parameter _ => true
  | _ => false

/-- The declarations in a bracketed subset, up to the bracket that closes it. A reader that stops at parameters takes
no note of what comes after one. -/
def subset (stops noting : Bool) (es : Entities) (cs : List Char) : Except Malformed (Entities × List Char) :=
  match h : next cs with
  | .error e => .error e
  | .ok (.close, after) => .ok (es, after)
  | .ok (i, after) =>
    have : after.length < cs.length := length_of_next h
    match takeIn noting es i with
    | .ok es => subset stops (noting && !(stops && i.isParameter)) es after
    | .error e => .error e
termination_by cs.length

/-- What a document type declaration declares. One that refers to another file may leave some entities
undeclared, unless the document stands alone. -/
def ofBody (stops standalone : Bool) (body : List Char) : Except Malformed Entities := do
  let (_, rest) ← orMalformed ((blank? body).bind Tag.name?)
  let (elsewhere, rest) := match (blank? rest).bind external? with
    | some after => (true, after)
    | none => (false, rest)
  let es := { Entities.none with incomplete := elsewhere && !standalone }
  let (es, rest) ← match rest.dropWhile isSpace with
    | '[' :: inner => subset (stops && !standalone) true es inner
    | rest => .ok (es, rest)
  if rest.all isSpace then return { es with incomplete := es.incomplete && !standalone } else throw .markup

end Doctype

end LoadPlan.Markup
