/-! A document cut into markup and the text between. -/
namespace LoadPlan.Markup

/-- A piece of a document, without the characters that open and close its kind. -/
inductive Lexeme
  | text (body : List Char)
  | opening (body : List Char)
  | closing (body : List Char)
  | comment (body : List Char)
  | instruction (body : List Char)
  | literal (body : List Char)
  | doctype (body : List Char)
  deriving DecidableEq, Repr

def Lexeme.body : Lexeme → List Char
  | .text body | .opening body | .closing body | .comment body | .instruction body
  | .literal body | .doctype body => body

/-- The part of a text before the first place of a word, and the part after that place. -/
def cutAfter (word : List Char) : List Char → Option (List Char × List Char)
  | [] => none
  | c :: rest =>
    if word.isPrefixOf (c :: rest) then some ([], (c :: rest).drop word.length)
    else (cutAfter word rest).map fun p => (c :: p.1, p.2)

theorem length_of_cutAfter {word : List Char} {cs before after : List Char}
    (h : cutAfter word cs = some (before, after)) : after.length ≤ cs.length := by
  induction cs generalizing before with
  | nil => simp [cutAfter] at h
  | cons c rest ih =>
    rw [cutAfter] at h
    split at h
    · simp only [Option.some.injEq, Prod.mk.injEq] at h
      rw [← h.2, List.length_drop]
      omega
    · obtain ⟨⟨b, a⟩, hp, he⟩ := Option.map_eq_some_iff.1 h
      simp only [Prod.mk.injEq] at he
      obtain ⟨-, rfl⟩ := he
      exact Nat.le_succ_of_le (ih hp)

/-- The inside of a tag; a closing bracket in quotes does not end it. -/
def cutTag (quote : Option Char) : List Char → Option (List Char × List Char)
  | [] => none
  | c :: rest =>
    match quote with
    | some q =>
      (cutTag (if c = q then none else some q) rest).map fun p => (c :: p.1, p.2)
    | none =>
      if c = '>' then some ([], rest)
      else
        (cutTag (if c = '"' || c = '\x27' then some c else none) rest).map
          fun p => (c :: p.1, p.2)

theorem length_of_cutTag {quote : Option Char} {cs before after : List Char}
    (h : cutTag quote cs = some (before, after)) : after.length ≤ cs.length := by
  induction cs generalizing before quote with
  | nil => simp [cutTag] at h
  | cons c rest ih =>
    have step : ∀ q, (cutTag q rest).map (fun p => (c :: p.1, p.2)) = some (before, after) →
        after.length ≤ (c :: rest).length := by
      intro q hq
      obtain ⟨⟨b, a⟩, hp, he⟩ := Option.map_eq_some_iff.1 hq
      simp only [Prod.mk.injEq] at he
      obtain ⟨-, rfl⟩ := he
      exact Nat.le_succ_of_le (ih hp)
    cases quote with
    | some q => exact step _ h
    | none =>
      rw [cutTag] at h
      split at h
      · simp only [Option.some.injEq, Prod.mk.injEq] at h
        rw [← h.2]
        exact Nat.le_succ _
      · exact step _ h

/-- Where a place inside a document type declaration stands. -/
inductive Nest
  | outer
  | subset
  | quoted (quote : Char) (inSubset : Bool)
  | comment
  | instruction

/-- The inside of a document type declaration, its bracketed subset included. -/
def cutDoctype : Nest → List Char → Option (List Char × List Char)
  | _, [] => none
  | .outer, c :: rest =>
    if c = '>' then some ([], rest)
    else
      (cutDoctype (if c = '[' then .subset
        else if c = '"' || c = '\x27' then .quoted c false else .outer) rest).map
        fun p => (c :: p.1, p.2)
  | .subset, '<' :: '!' :: '-' :: '-' :: rest =>
    (cutDoctype .comment rest).map fun p => ("<!--".toList ++ p.1, p.2)
  | .subset, '<' :: '?' :: rest =>
    (cutDoctype .instruction rest).map fun p => ("<?".toList ++ p.1, p.2)
  | .subset, c :: rest =>
    (cutDoctype (if c = ']' then .outer
      else if c = '"' || c = '\x27' then .quoted c true else .subset) rest).map
      fun p => (c :: p.1, p.2)
  | .quoted q inSubset, c :: rest =>
    (cutDoctype (if c = q then (if inSubset then .subset else .outer) else .quoted q inSubset)
      rest).map fun p => (c :: p.1, p.2)
  | .comment, '-' :: '-' :: '>' :: rest =>
    (cutDoctype .subset rest).map fun p => ("-->".toList ++ p.1, p.2)
  | .comment, c :: rest => (cutDoctype .comment rest).map fun p => (c :: p.1, p.2)
  | .instruction, '?' :: '>' :: rest =>
    (cutDoctype .subset rest).map fun p => ("?>".toList ++ p.1, p.2)
  | .instruction, c :: rest => (cutDoctype .instruction rest).map fun p => (c :: p.1, p.2)

theorem length_of_cutDoctype {nest : Nest} {cs before after : List Char}
    (h : cutDoctype nest cs = some (before, after)) : after.length ≤ cs.length := by
  fun_induction cutDoctype nest cs generalizing before with
  | case1 => simp at h
  | case2 =>
    simp only [Option.some.injEq, Prod.mk.injEq] at h
    rw [← h.2]
    exact Nat.le_succ _
  | case3 | case4 | case5 | case6 | case7 | case8 | case9 | case10 | case11 =>
    rename_i ih
    obtain ⟨⟨b, a⟩, hp, he⟩ := Option.map_eq_some_iff.1 h
    simp only [Prod.mk.injEq] at he
    obtain ⟨-, rfl⟩ := he
    have := ih hp
    simp only [List.length_cons]
    omega

namespace Lexeme

/-- The markup that an opening bracket begins. -/
def cut? : List Char → Option (Lexeme × List Char)
  | '!' :: '-' :: '-' :: rest => (cutAfter "-->".toList rest).map fun p => (.comment p.1, p.2)
  | '!' :: '[' :: 'C' :: 'D' :: 'A' :: 'T' :: 'A' :: '[' :: rest =>
    (cutAfter "]]>".toList rest).map fun p => (.literal p.1, p.2)
  | '!' :: 'D' :: 'O' :: 'C' :: 'T' :: 'Y' :: 'P' :: 'E' :: rest =>
    (cutDoctype .outer rest).map fun p => (.doctype p.1, p.2)
  | '?' :: rest => (cutAfter "?>".toList rest).map fun p => (.instruction p.1, p.2)
  | '/' :: rest => (cutAfter [ '>' ] rest).map fun p => (.closing p.1, p.2)
  | rest => (cutTag none rest).map fun p => (.opening p.1, p.2)

theorem length_of_cut? {cs after : List Char} {l : Lexeme} (h : cut? cs = some (l, after)) :
    after.length ≤ cs.length := by
  rw [cut?.eq_def] at h
  split at h <;>
    (obtain ⟨⟨b, a⟩, hp, he⟩ := Option.map_eq_some_iff.1 h
     simp only [Prod.mk.injEq] at he
     obtain ⟨-, rfl⟩ := he
     first
       | (have h := length_of_cutAfter hp; simp only [List.length_cons]; omega)
       | (have h := length_of_cutDoctype hp; simp only [List.length_cons]; omega)
       | exact length_of_cutTag hp)

/-- The pieces of a text; none if some markup does not end. -/
def split? : List Char → Option (List Lexeme)
  | [] => some []
  | c :: rest =>
    if c = '<' then
      match h : cut? rest with
      | none => none
      | some (l, after) =>
        have : after.length ≤ rest.length := length_of_cut? h
        (split? after).map (l :: ·)
    else
      have : (rest.dropWhile (· != '<')).length ≤ rest.length := (List.dropWhile_sublist _).length_le
      (split? (rest.dropWhile (· != '<'))).map (.text (c :: rest.takeWhile (· != '<')) :: ·)
termination_by cs => cs.length

end Lexeme

end LoadPlan.Markup
