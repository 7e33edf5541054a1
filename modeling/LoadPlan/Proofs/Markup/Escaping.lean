import Mathlib.Data.List.Basic
import LoadPlan.Markup.Escape
import LoadPlan.Markup.Reference
import LoadPlan.Text.Line

/-! Escaped text is read back: each character gives one piece, which stands for that character. The line
ends of the text itself are unified on the way, those that are escaped are not. -/
namespace LoadPlan.Text

/-- A text without carriage returns may stand before any other. -/
theorem unifyLineEnds_append {a : List Char} (h : '\r' ∉ a) (b : List Char) :
    unifyLineEnds (a ++ b) = a ++ unifyLineEnds b := by
  induction a with
  | nil => rfl
  | cons c a ih =>
    have hc : c ≠ '\r' := fun he => h (he ▸ List.mem_cons_self)
    have ha : '\r' ∉ a := fun hm => h (List.mem_cons_of_mem _ hm)
    rw [List.cons_append, unifyLineEnds, ih ha, List.cons_append]
    · rintro r rfl
      exact absurd rfl hc
    · exact hc

theorem unifyLineEnds_of_not_mem {cs : List Char} (h : '\r' ∉ cs) : unifyLineEnds cs = cs := by
  have ha := unifyLineEnds_append h []
  rwa [List.append_nil, unifyLineEnds, List.append_nil] at ha

theorem not_mem_unifyLineEnds (cs : List Char) : '\r' ∉ unifyLineEnds cs := by
  fun_induction unifyLineEnds cs with
  | case1 => simp
  | case2 rest ih => simpa using ih
  | case3 rest _ ih => simpa using ih
  | case4 c rest _ hc ih =>
    rw [List.mem_cons, not_or]
    exact ⟨fun he => hc he.symm, ih⟩

theorem unifyLineEnds_eq_self_iff {cs : List Char} : unifyLineEnds cs = cs ↔ '\r' ∉ cs :=
  ⟨fun h => h ▸ not_mem_unifyLineEnds cs, unifyLineEnds_of_not_mem⟩

end LoadPlan.Text

namespace LoadPlan.Markup

open LoadPlan.Text (unifyLineEnds unifyLineEnds_append unifyLineEnds_of_not_mem)

/-- A text of characters that a document may hold. -/
def Legible (cs : List Char) : Prop :=
  ∀ c ∈ cs, isAllowed c.toNat = true

instance (cs : List Char) : Decidable (Legible cs) :=
  decidable_of_iff (cs.all fun c => isAllowed c.toNat) List.all_eq_true

theorem Legible.mono {a b : List Char} (h : Legible b) (hab : a ⊆ b) : Legible a :=
  fun c hc => h c (hab hc)

theorem legible_flatMap {α : Type} {f : α → List Char} {xs : List α} :
    Legible (xs.flatMap f) ↔ ∀ x ∈ xs, Legible (f x) := by
  simp only [Legible, List.mem_flatMap]
  exact ⟨fun h x hx c hc => h c ⟨x, hx, hc⟩, fun h c ⟨x, hx, hc⟩ => h x hx c hc⟩

theorem legible_append {a b : List Char} : Legible (a ++ b) ↔ Legible a ∧ Legible b :=
  List.forall_mem_append

theorem legible_unifyLineEnds {cs : List Char} (h : Legible cs) : Legible (Text.unifyLineEnds cs) := by
  have hend : isAllowed '\n'.toNat = true := rfl
  fun_induction Text.unifyLineEnds cs with
  | case1 => exact h
  | case2 rest ih =>
    have hrest := (List.forall_mem_cons.mp (List.forall_mem_cons.mp h).2).2
    exact List.forall_mem_cons.mpr ⟨hend, ih hrest⟩
  | case3 rest _ ih => exact List.forall_mem_cons.mpr ⟨hend, ih (List.forall_mem_cons.mp h).2⟩
  | case4 c rest _ _ ih =>
    obtain ⟨hc, hrest⟩ := List.forall_mem_cons.mp h
    exact List.forall_mem_cons.mpr ⟨hc, ih hrest⟩

namespace Escape

/-- The piece that an escaped character is read as. -/
def pieceOf (quoted : Bool) (c : Char) : Piece :=
  match c with
  | '&' => .entity "amp"
  | '<' => .entity "lt"
  | '>' => .entity "gt"
  | '"' => if quoted then .entity "quot" else .plain c
  | '\n' => if quoted then .coded c else .plain c
  | '\r' => if quoted then .coded c else .plain c
  | '\t' => if quoted then .coded c else .plain c
  | _ => .plain c

variable {quoted : Bool}

theorem encodeList_cons (c : Char) (cs : List Char) :
    encodeList quoted (c :: cs) = encodeChar quoted c ++ encodeList quoted cs :=
  List.flatMap_cons

/-- The characters of a reference between its ampersand and its semicolon. -/
def isReferenceChar (c : Char) : Bool :=
  c.isAlphanum || c == '#'

/-- A character is escaped, or stands for itself and is none of those that have to be. -/
theorem encodeChar_cases (quoted : Bool) (c : Char) :
    (∃ body, encodeChar quoted c = '&' :: (body ++ [';']) ∧ body.all isReferenceChar = true ∧
      Reference.ofBody body = .ok (pieceOf quoted c) ∧ isAllowed c.toNat = true) ∨
    (encodeChar quoted c = [c] ∧ pieceOf quoted c = .plain c ∧ c ≠ '&' ∧ c ≠ '<' ∧ c ≠ '>' ∧
      (quoted = true → c ≠ '"' ∧ c ≠ '\n' ∧ c ≠ '\r' ∧ c ≠ '\t')) := by
  unfold encodeChar pieceOf
  split
  · exact .inl ⟨"amp".toList, rfl, by decide, rfl, rfl⟩
  · exact .inl ⟨"lt".toList, rfl, by decide, rfl, rfl⟩
  · exact .inl ⟨"gt".toList, rfl, by decide, rfl, rfl⟩
  · cases quoted with
    | true => exact .inl ⟨"quot".toList, rfl, by decide, rfl, rfl⟩
    | false => exact .inr ⟨rfl, rfl, by decide, by decide, by decide, by simp⟩
  · cases quoted with
    | true => exact .inl ⟨"#10".toList, rfl, by decide, rfl, rfl⟩
    | false => exact .inr ⟨rfl, rfl, by decide, by decide, by decide, by simp⟩
  · cases quoted with
    | true => exact .inl ⟨"#13".toList, rfl, by decide, rfl, rfl⟩
    | false => exact .inr ⟨rfl, rfl, by decide, by decide, by decide, by simp⟩
  · cases quoted with
    | true => exact .inl ⟨"#9".toList, rfl, by decide, rfl, rfl⟩
    | false => exact .inr ⟨rfl, rfl, by decide, by decide, by decide, by simp⟩
  · next h1 h2 h3 h4 h5 h6 h7 =>
    refine .inr ⟨rfl, ?_, h1, h2, h3, fun _ => ⟨h4, h5, h6, h7⟩⟩
    simp

theorem encodeList_eq_nil_iff {cs : List Char} :
    encodeList quoted cs = [] ↔ cs = [] := by
  cases cs with
  | nil => exact iff_of_true rfl rfl
  | cons c cs =>
    have he : encodeChar quoted c ≠ [] := by
      rcases encodeChar_cases quoted c with ⟨body, he, -⟩ | ⟨he, -⟩
      · rw [he]
        exact List.cons_ne_nil _ _
      · rw [he]
        exact List.cons_ne_nil _ _
    rw [encodeList_cons]
    simp [he]

/-- The characters that do not occur in an escaped text. -/
def isEscaped (quoted : Bool) (c : Char) : Bool :=
  c == '<' || c == '>' || quoted && (c == '"' || c == '\n' || c == '\r' || c == '\t')

theorem isEscaped_of_isReferenceChar {c : Char} (h : isReferenceChar c = true) :
    isEscaped quoted c = false := by
  by_contra he
  simp only [isEscaped, Bool.not_eq_false, Bool.or_eq_true, Bool.and_eq_true, beq_iff_eq] at he
  rcases he with (rfl | rfl) | ⟨-, ((rfl | rfl) | rfl) | rfl⟩ <;> exact absurd h (by decide)

/-- What an escaped character is made of. -/
theorem mem_encodeChar {x c : Char} (h : x ∈ encodeChar quoted c) :
    isEscaped quoted x = false ∧ (x = '&' ∨ x = ';' ∨ isReferenceChar x = true ∨ x = c) := by
  rcases encodeChar_cases quoted c with ⟨body, he, hb, -, -⟩ | ⟨he, -, -, hlt, hgt, hq⟩
  · rw [he, List.mem_cons, List.mem_append, List.mem_singleton] at h
    rcases h with rfl | h | rfl
    · exact ⟨by cases quoted <;> rfl, .inl rfl⟩
    · have hr := List.all_eq_true.mp hb x h
      exact ⟨isEscaped_of_isReferenceChar hr, .inr (.inr (.inl hr))⟩
    · exact ⟨by cases quoted <;> rfl, .inr (.inl rfl)⟩
  · rw [he, List.mem_singleton] at h
    subst h
    refine ⟨?_, .inr (.inr (.inr rfl))⟩
    cases quoted with
    | false => simp [isEscaped, hlt, hgt]
    | true => simp [isEscaped, hlt, hgt, hq rfl]

theorem mem_encodeList {x : Char} {cs : List Char} (h : x ∈ encodeList quoted cs) :
    isEscaped quoted x = false ∧ (x = '&' ∨ x = ';' ∨ isReferenceChar x = true ∨ x ∈ cs) := by
  obtain ⟨c, hc, hx⟩ := List.mem_flatMap.mp h
  obtain ⟨he, hx⟩ := mem_encodeChar hx
  refine ⟨he, ?_⟩
  rcases hx with hx | hx | hx | rfl
  · exact .inl hx
  · exact .inr (.inl hx)
  · exact .inr (.inr (.inl hx))
  · exact .inr (.inr (.inr hc))

theorem not_mem_encodeList {x : Char} (hx : isEscaped quoted x = true) (cs : List Char) :
    x ∉ encodeList quoted cs := by
  intro h
  rw [(mem_encodeList h).1] at hx
  cases hx

theorem isAllowed_of_isReferenceChar {c : Char} (h : isReferenceChar c = true) :
    isAllowed c.toNat = true := by
  unfold isReferenceChar Char.isAlphanum Char.isAlpha Char.isUpper Char.isLower Char.isDigit at h
  simp only [Bool.or_eq_true, Bool.and_eq_true, decide_eq_true_eq, beq_iff_eq, UInt32.le_iff_toNat_le,
    ge_iff_le] at h
  simp only [isAllowed, Bool.or_eq_true, Bool.and_eq_true, decide_eq_true_eq, beq_iff_eq]
  rcases h with h | rfl
  · have hc : c.toNat = c.val.toNat := rfl
    have hu : 'A'.val.toNat = 65 ∧ 'Z'.val.toNat = 90 := ⟨rfl, rfl⟩
    have hl : 'a'.val.toNat = 97 ∧ 'z'.val.toNat = 122 := ⟨rfl, rfl⟩
    have hd : '0'.val.toNat = 48 ∧ '9'.val.toNat = 57 := ⟨rfl, rfl⟩
    omega
  · decide

/-- Escaping helps no character that a document may not hold. -/
theorem legible_encodeList {cs : List Char} : Legible (encodeList quoted cs) ↔ Legible cs := by
  constructor
  · intro h c hc
    rcases encodeChar_cases quoted c with ⟨-, -, -, -, ha⟩ | ⟨he, -⟩
    · exact ha
    · exact h c (List.mem_flatMap.mpr ⟨c, hc, he ▸ List.mem_singleton_self c⟩)
  · intro h x hx
    rcases (mem_encodeList hx).2 with rfl | rfl | hx | hx
    · rfl
    · rfl
    · exact isAllowed_of_isReferenceChar hx
    · exact h x hx

/-- A piece stands for the character it came from. -/
theorem pieceOf_cases (quoted : Bool) (c : Char) :
    pieceOf quoted c = .plain c ∨ pieceOf quoted c = .coded c ∨
      ∃ name, pieceOf quoted c = .entity name ∧ Reference.predefined? name = some c := by
  unfold pieceOf
  split
  · exact .inr (.inr ⟨_, rfl, rfl⟩)
  · exact .inr (.inr ⟨_, rfl, rfl⟩)
  · exact .inr (.inr ⟨_, rfl, rfl⟩)
  · cases quoted with
    | true => exact .inr (.inr ⟨_, rfl, rfl⟩)
    | false => exact .inl rfl
  iterate 3
    · cases quoted with
      | true => exact .inr (.inl rfl)
      | false => exact .inl rfl
  · exact .inl rfl

theorem cutAfter_of_not_mem {c : Char} {body : List Char} (h : c ∉ body) (rest : List Char) :
    cutAfter [c] (body ++ c :: rest) = some (body, rest) := by
  induction body with
  | nil => simp [cutAfter]
  | cons x body ih =>
    obtain ⟨hx, hb⟩ := not_or.mp (mt List.mem_cons.mpr h)
    have hp : [c].isPrefixOf (x :: (body ++ c :: rest)) = false := by
      rw [List.isPrefixOf, beq_false_of_ne hx, Bool.false_and]
    rw [List.cons_append, cutAfter, hp, ih hb]
    rfl

theorem pieces_reference {body : List Char} {p : Piece} (hb : ';' ∉ body)
    (hp : Reference.ofBody body = .ok p) (rest : List Char) :
    Reference.pieces ('&' :: (body ++ ';' :: rest)) =
      (Reference.pieces rest).map (p :: ·) := by
  rw [Reference.pieces, if_pos rfl]
  split
  · next h =>
    rw [cutAfter_of_not_mem hb] at h
    cases h
  · next h =>
    rw [cutAfter_of_not_mem hb] at h
    cases h
    rw [hp]
    cases Reference.pieces rest <;> rfl

theorem pieces_encodeChar (c : Char) (rest : List Char) :
    Reference.pieces (encodeChar quoted c ++ rest) =
      (Reference.pieces rest).map (pieceOf quoted c :: ·) := by
  rcases encodeChar_cases quoted c with ⟨body, he, hb, hp, -⟩ | ⟨he, hp, hc, -⟩
  · have hs : ';' ∉ body := fun hm => absurd (List.all_eq_true.mp hb _ hm) (by decide)
    rw [he, List.cons_append, List.append_assoc]
    exact pieces_reference hs hp rest
  · rw [he, hp, List.singleton_append, Reference.pieces, if_neg hc]

theorem pieces_encodeList (cs : List Char) :
    Reference.pieces (encodeList quoted cs) = .ok (cs.map (pieceOf quoted)) := by
  induction cs with
  | nil =>
    rw [Reference.pieces.eq_def]
    rfl
  | cons c cs ih =>
    rw [encodeList_cons, pieces_encodeChar, ih]
    rfl

/-- Line ends of a text come through escaping as they are. -/
theorem unifyLineEnds_encodeList (cs : List Char) :
    unifyLineEnds (encodeList false cs) = encodeList false (unifyLineEnds cs) := by
  fun_induction unifyLineEnds cs with
  | case1 => rfl
  | case2 rest ih =>
    change unifyLineEnds ('\r' :: '\n' :: encodeList false rest) = '\n' :: encodeList false _
    rw [unifyLineEnds, ih]
  | case3 rest hr ih =>
    change unifyLineEnds ('\r' :: encodeList false rest) = '\n' :: encodeList false _
    rw [unifyLineEnds, ih]
    -- A text that does not begin with a line feed does not do so when it is escaped.
    intro tail ht
    cases rest with
    | nil => cases ht
    | cons c cs =>
      rw [encodeList_cons] at ht
      rcases encodeChar_cases false c with ⟨body, he, -⟩ | ⟨he, -⟩
      · rw [he, List.cons_append] at ht
        exact absurd (List.cons.inj ht).1 (by decide)
      · rw [he, List.singleton_append] at ht
        exact hr cs (by rw [(List.cons.inj ht).1])
  | case4 c rest _ hc ih =>
    have hm : '\r' ∉ encodeChar false c := by
      intro h
      rcases (mem_encodeChar h).2 with h | h | h | h
      · exact absurd h (by decide)
      · exact absurd h (by decide)
      · exact absurd h (by decide)
      · exact hc h.symm
    rw [encodeList_cons, unifyLineEnds_append hm, ih, encodeList_cons]

theorem valuePiece_pieceOf (es : Entities) (replace : List Char → Except Malformed (List Char))
    (c : Char) : es.valuePiece replace (pieceOf true c) = .ok [c] := by
  unfold pieceOf
  split
  case h_8 h1 h2 h3 h4 h5 h6 h7 =>
    have hs : isSpace c = (c == ' ') := by
      rw [isSpace, beq_false_of_ne h7, beq_false_of_ne h5, beq_false_of_ne h6]
      simp only [Bool.or_false]
    rw [Entities.valuePiece, if_neg h2, hs]
    by_cases hc : c = ' '
    · rw [hc]
      rfl
    · rw [beq_false_of_ne hc]
      rfl
  all_goals rfl

/-- An escaped value of an attribute is read as it was. -/
theorem value_encodeList (es : Entities) (depth : Nat) (cs : List Char) :
    es.value depth (unifyLineEnds (encodeList true cs)) = .ok cs := by
  have hr : '\r' ∉ encodeList true cs := not_mem_encodeList (by decide) cs
  have hread : ∀ replace : List Char → Except Malformed (List Char),
      (do
        let ps ← Reference.pieces (encodeList true cs)
        let parts ← ps.mapM (es.valuePiece replace)
        return parts.flatten) = .ok cs := by
    intro replace
    have hv : (cs.map (pieceOf true)).mapM (es.valuePiece replace) = .ok (cs.map fun c => [c]) := by
      rw [List.mapM_map]
      simp only [Function.comp_def, valuePiece_pieceOf]
      exact List.mapM_pure
    have hf : (cs.map fun c => [c]).flatten = cs := by
      rw [← List.flatMap_def, List.flatMap_singleton']
    rw [pieces_encodeList]
    change ((cs.map (pieceOf true)).mapM (es.valuePiece replace) >>= fun parts => pure parts.flatten) = _
    rw [hv]
    exact congrArg Except.ok hf
  rw [unifyLineEnds_of_not_mem hr]
  cases depth with
  | zero =>
    rw [Entities.value]
    exact hread _
  | succ depth =>
    rw [Entities.value]
    exact hread _

end Escape

end LoadPlan.Markup
