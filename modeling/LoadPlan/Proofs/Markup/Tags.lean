import Mathlib.Data.List.TakeWhile
import LoadPlan.Markup.Element
import LoadPlan.Markup.Tag
import LoadPlan.Proofs.Markup.Escaping

/-! Tags as they are written: where they end, and that their names and attributes are read back. -/
namespace LoadPlan.Markup

/-! Names. -/

theorem isNameChar_of_isName {name : List Char} (h : isName name = true) :
    ∀ c ∈ name, isNameChar c = true := by
  cases name with
  | nil => simp
  | cons c cs =>
    obtain ⟨hc, hcs⟩ := Bool.and_eq_true_iff.mp h
    rw [List.forall_mem_cons]
    refine ⟨?_, List.all_eq_true.mp hcs⟩
    simp [isNameChar, hc]

theorem isNamePart_of_isName {name : List Char} (h : isName name = true) :
    ∀ c ∈ name, isNamePart c = true := by
  intro c hc
  rw [isNamePart, isNameChar_of_isName h c hc, Bool.true_or]

/-- A name does not hold a character that no name may hold. -/
theorem not_mem_of_isName {name : List Char} {c : Char} (h : isName name = true)
    (hc : isNameChar c = false) : c ∉ name := by
  intro hm
  rw [isNameChar_of_isName h c hm] at hc
  cases hc

theorem exists_cons_of_isName {name : List Char} (h : isName name = true) :
    ∃ c cs, name = c :: cs ∧ isNameStart c = true := by
  cases name with
  | nil => cases h
  | cons c cs => exact ⟨c, cs, rfl, (Bool.and_eq_true_iff.mp h).1⟩

theorem not_isSpace_of_isNameStart {c : Char} (h : isNameStart c = true) : isSpace c = false := by
  by_contra hs
  simp only [isSpace, Bool.not_eq_false, Bool.or_eq_true, beq_iff_eq] at hs
  rcases hs with ((rfl | rfl) | rfl) | rfl <;> exact absurd h (by decide)

theorem isAllowed_of_isNameChar {c : Char} (h : isNameChar c = true) : isAllowed c.toNat = true := by
  have hu : 'A'.val.toNat = 65 ∧ 'Z'.val.toNat = 90 := ⟨rfl, rfl⟩
  have hl : 'a'.val.toNat = 97 ∧ 'z'.val.toNat = 122 := ⟨rfl, rfl⟩
  have hd : '0'.val.toNat = 48 ∧ '9'.val.toNat = 57 := ⟨rfl, rfl⟩
  have hm : '_'.toNat = 95 ∧ '-'.toNat = 45 ∧ '.'.toNat = 46 := ⟨rfl, rfl, rfl⟩
  have hc : c.val.toNat = c.toNat := rfl
  unfold isNameChar isNameStart Char.isAlpha Char.isUpper Char.isLower Char.isDigit at h
  simp only [Bool.or_eq_true, Bool.and_eq_true, decide_eq_true_eq, beq_iff_eq, UInt32.le_iff_toNat_le,
    ge_iff_le, ← Char.toNat_inj, hc] at h
  simp only [isAllowed, Bool.or_eq_true, Bool.and_eq_true, decide_eq_true_eq, beq_iff_eq]
  omega

theorem legible_of_isName {name : List Char} (h : isName name = true) : Legible name :=
  fun c hc => isAllowed_of_isNameChar (isNameChar_of_isName h c hc)

namespace Tag

/-- A name at the start of a text is read up to the first character that is no part of a name. -/
theorem name?_append {name : String} {rest : List Char} (h : isName name.toList = true)
    (hr : ∀ c ∈ rest.head?, isNamePart c = false) :
    name? (name.toList ++ rest) = some (⟨none, name⟩, rest) := by
  have hall := isNamePart_of_isName h
  have hcolon : ∀ c ∈ name.toList, (c != ':') = true := by
    intro c hc
    rw [bne_iff_ne]
    rintro rfl
    exact not_mem_of_isName h (by decide) hc
  have ht : rest.takeWhile isNamePart = [] := by
    cases rest with
    | nil => rfl
    | cons c cs => rw [List.takeWhile_cons, hr c rfl]; rfl
  have hd : rest.dropWhile isNamePart = rest := by
    cases rest with
    | nil => rfl
    | cons c cs => rw [List.dropWhile_cons, hr c rfl]; rfl
  have hq : QualifiedName.ofChars? name.toList = some ⟨none, name⟩ := by
    have htake : name.toList.takeWhile (· != ':') = name.toList := List.takeWhile_eq_self_iff.mpr hcolon
    have hdrop : name.toList.dropWhile (· != ':') = [] := List.dropWhile_eq_nil_iff.mpr hcolon
    simp only [QualifiedName.ofChars?, htake, hdrop, h, if_true, String.ofList_toList]
  rw [name?, List.takeWhile_append_of_pos hall, List.dropWhile_append_of_pos hall, ht, hd,
    List.append_nil, hq]
  rfl

theorem quoted?_append {value : List Char} (h : '"' ∉ value) (rest : List Char) :
    quoted? ('"' :: (value ++ '"' :: rest)) = some (value, rest) := by
  have hv : ∀ c ∈ value, (c != '"') = true := by
    intro c hc
    rw [bne_iff_ne]
    rintro rfl
    exact h hc
  have ht : (value ++ '"' :: rest).takeWhile (· != '"') = value := by
    rw [List.takeWhile_append_of_pos hv]
    simp
  have hd : (value ++ '"' :: rest).dropWhile (· != '"') = '"' :: rest := by
    rw [List.dropWhile_append_of_pos hv]
    simp
  simp only [quoted?, ht, hd]
  rfl

theorem attribute?_append {name : String} {value : List Char} (hn : isName name.toList = true)
    (hv : '"' ∉ value) (rest : List Char) :
    attribute? (name.toList ++ '=' :: '"' :: (value ++ '"' :: rest)) =
      some ((⟨none, name⟩, value), rest) := by
  have hname : name? (name.toList ++ '=' :: '"' :: (value ++ '"' :: rest)) =
      some (⟨none, name⟩, '=' :: '"' :: (value ++ '"' :: rest)) :=
    name?_append hn (by simp; decide)
  have hs : isSpace '=' = false ∧ isSpace '"' = false := ⟨by decide, by decide⟩
  simp only [attribute?, hname, List.dropWhile_cons, hs, Bool.false_eq_true, if_false,
    quoted?_append hv]

/-- An attribute as it is written, after a blank. -/
def written (a : String × String) : List Char :=
  ' ' :: (a.1.toList ++ '=' :: '"' :: (Escape.encodeList true a.2.toList ++ ['"']))

/-- An attribute as it is read, its value still escaped. -/
def escaped (a : String × String) : QualifiedName × List Char :=
  (⟨none, a.1⟩, Escape.encodeList true a.2.toList)

/-- The slash of a tag that closes its element at once. -/
def slash (empty : Bool) : List Char :=
  if empty then ['/'] else []

theorem attributes?_of_attribute? {cs rest after : List Char} {c : Char} {a : QualifiedName × List Char}
    (hd : cs.dropWhile isSpace = c :: rest) (hr : rest ≠ []) (ht : (cs.takeWhile isSpace).isEmpty = false)
    (ha : attribute? (c :: rest) = some (a, after)) :
    attributes? cs = (attributes? after).map fun p => (a :: p.1, p.2) := by
  rw [attributes?.eq_def]
  split
  · next hn =>
    rw [hd] at hn
    cases hn
  · next hn =>
    rw [hd] at hn
    cases hn
    exact absurd rfl hr
  · next hn =>
    rw [hd] at hn
    cases hn
    rw [ht]
    simp only [Bool.false_eq_true, if_false]
    split
    · next hn =>
      rw [ha] at hn
      cases hn
    · next hn =>
      rw [ha] at hn
      cases hn
      rfl

/-- An attribute that is written first is read first. -/
theorem attributes?_append {a : String × String} (ha : isName a.1.toList = true) (rest : List Char) :
    attributes? (written a ++ rest) = (attributes? rest).map fun p => (escaped a :: p.1, p.2) := by
  obtain ⟨c, cs, hname, hc⟩ := exists_cons_of_isName ha
  have hv : '"' ∉ Escape.encodeList true a.2.toList := Escape.not_mem_encodeList (by decide) _
  have hblank : isSpace c = false := not_isSpace_of_isNameStart hc
  have htext : written a ++ rest = ' ' :: c :: (cs ++ '=' :: '"' ::
      (Escape.encodeList true a.2.toList ++ '"' :: rest)) := by
    simp [written, hname]
  have hread := attribute?_append ha hv rest
  rw [hname, List.cons_append] at hread
  refine attributes?_of_attribute? ?_ (by simp) ?_ hread
  · rw [htext, List.dropWhile_cons, List.dropWhile_cons, hblank]
    rfl
  · rw [htext, List.takeWhile_cons]
    rfl

theorem attributes?_written {as : List (String × String)}
    (h : ∀ a ∈ as, isName a.1.toList = true) (empty : Bool) :
    attributes? (as.flatMap written ++ slash empty) = some (as.map escaped, empty) := by
  induction as with
  | nil =>
    rw [attributes?.eq_def]
    cases empty <;> rfl
  | cons a as ih =>
    obtain ⟨ha, has⟩ := List.forall_mem_cons.mp h
    rw [List.flatMap_cons, List.append_assoc, attributes?_append ha, ih has]
    rfl

/-- The inside of a start tag is read as the tag it was written from. -/
theorem ofBody_written {tag : String} {as : List (String × String)} (ht : isName tag.toList = true)
    (ha : ∀ a ∈ as, isName a.1.toList = true) (empty : Bool) :
    ofBody (tag.toList ++ (as.flatMap written ++ slash empty)) =
      .ok ⟨⟨none, tag⟩, as.map escaped, empty⟩ := by
  have hhead : ∀ c ∈ (as.flatMap written ++ slash empty).head?, isNamePart c = false := by
    intro c hc
    cases as with
    | nil =>
      cases empty with
      | false => cases hc
      | true =>
        cases hc
        decide
    | cons a as =>
      cases hc
      decide
  rw [ofBody, name?_append ht hhead]
  simp only [attributes?_written ha]

theorem ofClosing_written {tag : String} (ht : isName tag.toList = true) :
    ofClosing tag.toList = .ok ⟨none, tag⟩ := by
  have h : name? (tag.toList ++ []) = some (⟨none, tag⟩, []) := name?_append ht (by simp)
  rw [List.append_nil] at h
  rw [ofClosing, h]
  rfl

/-! A tag ends at the first closing bracket outside quotes. -/

/-- A text that a tag does not end in. -/
def Inner (a : List Char) : Prop :=
  ∀ rest, cutTag none (a ++ rest) = (cutTag none rest).map fun p => (a ++ p.1, p.2)

theorem Inner.append {a b : List Char} (ha : Inner a) (hb : Inner b) : Inner (a ++ b) := by
  intro rest
  rw [List.append_assoc, ha, hb, Option.map_map]
  simp only [Function.comp_def, List.append_assoc]

theorem Inner.flatMap {α : Type} {f : α → List Char} {xs : List α} (h : ∀ x ∈ xs, Inner (f x)) :
    Inner (xs.flatMap f) := by
  induction xs with
  | nil =>
    intro rest
    simp
  | cons x xs ih =>
    obtain ⟨hx, hxs⟩ := List.forall_mem_cons.mp h
    exact hx.append (ih hxs)

theorem Inner.cut {a : List Char} (h : Inner a) (rest : List Char) :
    cutTag none (a ++ '>' :: rest) = some (a, rest) := by
  rw [h, cutTag, if_pos rfl, Option.map_some, List.append_nil]

theorem inner_of_not_mem {a : List Char} (h : ∀ c ∈ a, c ≠ '>' ∧ c ≠ '"' ∧ c ≠ '\x27') : Inner a := by
  intro rest
  induction a with
  | nil => simp
  | cons c a ih =>
    obtain ⟨⟨h1, h2, h3⟩, ha⟩ := List.forall_mem_cons.mp h
    have hq : (c = '"' || c = '\x27') = false := by simp [h2, h3]
    rw [List.cons_append, cutTag, if_neg h1, hq, if_neg (by simp), ih ha, Option.map_map]
    rfl

theorem cutTag_quoted {value : List Char} (h : '"' ∉ value) (rest : List Char) :
    cutTag (some '"') (value ++ '"' :: rest) =
      (cutTag none rest).map fun p => (value ++ '"' :: p.1, p.2) := by
  induction value with
  | nil => rw [List.nil_append, cutTag, if_pos rfl]; rfl
  | cons c value ih =>
    obtain ⟨hc, hv⟩ := not_or.mp (mt List.mem_cons.mpr h)
    rw [List.cons_append, cutTag, if_neg (fun he => hc he.symm), ih hv, Option.map_map]
    rfl

theorem inner_name {name : List Char} (h : isName name = true) : Inner name := by
  refine inner_of_not_mem fun c hc => ⟨?_, ?_, ?_⟩
  all_goals
    rintro rfl
    exact not_mem_of_isName h (by decide) hc

theorem inner_written {a : String × String} (h : isName a.1.toList = true) : Inner (written a) := by
  have hv : '"' ∉ Escape.encodeList true a.2.toList := Escape.not_mem_encodeList (by decide) _
  have hblank : Inner [' '] := inner_of_not_mem (by simp)
  have hequals : Inner ['='] := inner_of_not_mem (by simp)
  have hquoted : Inner ('"' :: (Escape.encodeList true a.2.toList ++ ['"'])) := by
    intro rest
    rw [List.cons_append, List.append_assoc, cutTag, if_neg (by decide), if_pos (by decide)]
    rw [List.singleton_append, cutTag_quoted hv, Option.map_map]
    simp [Function.comp_def]
  have hall := ((hblank.append (inner_name h)).append hequals).append hquoted
  simpa [written] using hall

theorem inner_opening {tag : String} {as : List (String × String)} (ht : isName tag.toList = true)
    (ha : ∀ a ∈ as, isName a.1.toList = true) (empty : Bool) :
    Inner (tag.toList ++ (as.flatMap written ++ slash empty)) := by
  have hs : Inner (slash empty) := by
    cases empty with
    | false => exact inner_of_not_mem (by simp [slash])
    | true => exact inner_of_not_mem (by simp [slash])
  exact (inner_name ht).append ((Inner.flatMap fun a hm => inner_written (ha a hm)).append hs)

end Tag

end LoadPlan.Markup
