import LoadPlan.Markup.Character

/-! Tags and their attributes. -/
namespace LoadPlan.Markup

/-- A start tag, with attribute values as written. -/
structure Tag where
  name : QualifiedName
  attributes : List (QualifiedName × List Char)
  empty : Bool
  deriving Repr

namespace Tag

/-- A qualified name at the start of a text, and what follows. -/
def name? (cs : List Char) : Option (QualifiedName × List Char) :=
  (QualifiedName.ofChars? (cs.takeWhile isNamePart)).map (·, cs.dropWhile isNamePart)

theorem length_of_name? {cs after : List Char} {q : QualifiedName}
    (h : name? cs = some (q, after)) : after.length ≤ cs.length := by
  obtain ⟨a, -, ha⟩ := Option.map_eq_some_iff.1 h
  simp only [Prod.mk.injEq] at ha
  rw [← ha.2]
  exact (List.dropWhile_sublist _).length_le

/-- The text between two equal quotes at the start, and what follows. -/
def quoted? : List Char → Option (List Char × List Char)
  | [] => none
  | q :: rest =>
    if q = '"' || q = '\x27' then
      match rest.dropWhile (· != q) with
      | [] => none
      | _ :: after => some (rest.takeWhile (· != q), after)
    else none

theorem length_of_quoted? {cs value after : List Char} (h : quoted? cs = some (value, after)) :
    after.length < cs.length := by
  cases cs with
  | nil => simp [quoted?] at h
  | cons q rest =>
    simp only [quoted?] at h
    split at h
    · have hl := (List.dropWhile_sublist (· != q) (l := rest)).length_le
      split at h
      · simp at h
      · rename_i heq
        simp only [Option.some.injEq, Prod.mk.injEq] at h
        rw [heq] at hl
        rw [← h.2]
        simp only [List.length_cons] at hl ⊢
        omega
    · simp at h

/-- A name, an equals sign and a quoted value, and what follows. -/
def attribute? (cs : List Char) : Option ((QualifiedName × List Char) × List Char) :=
  match name? cs with
  | none => none
  | some (name, rest) =>
    match rest.dropWhile isSpace with
    | '=' :: rest =>
      match quoted? (rest.dropWhile isSpace) with
      | none => none
      | some (value, after) => some ((name, value), after)
    | _ => none

theorem length_of_attribute? {cs after : List Char} {a : QualifiedName × List Char}
    (h : attribute? cs = some (a, after)) : after.length < cs.length := by
  simp only [attribute?] at h
  split at h
  · simp at h
  · rename_i name rest hn
    split at h
    · rename_i tail ht
      split at h
      · simp at h
      · rename_i value after' hq
        simp only [Option.some.injEq, Prod.mk.injEq] at h
        have h1 := length_of_name? hn
        have h2 := (List.dropWhile_sublist isSpace (l := rest)).length_le
        have h3 := (List.dropWhile_sublist isSpace (l := tail)).length_le
        have h4 := length_of_quoted? hq
        rw [ht] at h2
        rw [← h.2]
        simp only [List.length_cons] at h2
        omega
    · simp at h

/-- The attributes after a tag's name, each set off by blanks, and whether a slash ends the tag. -/
def attributes? (cs : List Char) : Option (List (QualifiedName × List Char) × Bool) :=
  match h : cs.dropWhile isSpace with
  | [] => some ([], false)
  | ['/'] => some ([], true)
  | c :: rest =>
    if (cs.takeWhile isSpace).isEmpty then none
    else
      match ha : attribute? (c :: rest) with
      | none => none
      | some (a, after) =>
        have : after.length < cs.length := by
          have h1 := (List.dropWhile_sublist isSpace (l := cs)).length_le
          have h2 := length_of_attribute? ha
          rw [h] at h1
          omega
        (attributes? after).map fun p => (a :: p.1, p.2)
termination_by cs.length

/-- A start tag from the text between its brackets. -/
def ofBody (body : List Char) : Except Malformed Tag :=
  match name? body with
  | none => .error .markup
  | some (name, rest) =>
    match attributes? rest with
    | none => .error .markup
    | some (attributes, empty) => .ok ⟨name, attributes, empty⟩

/-- The name in an end tag; blanks may follow it. -/
def ofClosing (body : List Char) : Except Malformed QualifiedName :=
  match name? body with
  | some (name, rest) => if rest.all isSpace then .ok name else .error .markup
  | none => .error .markup

end Tag

end LoadPlan.Markup
