import Mathlib.Data.List.Basic
import Mathlib.Order.Nat
import LoadPlan.Number.Integer

/-! The texts of decimal numerals, and the longest of them that a text begins with. Each part of the reader is held
against every way in which a text can begin with what the part reads: it stops where that ends, with its value, or it
goes on. -/
namespace LoadPlan.Number

open LoadPlan.Text

/-- Characters are digits, of any script, with these values. -/
abbrev Spells (cs : List Char) (ds : List Nat) : Prop :=
  List.Forall₂ (fun c d => digit? c = some d) cs ds

/-- A sign, or none. -/
inductive Sign : List Char → Bool → Prop
  | none : Sign [] false
  | plus : Sign ['+'] false
  | minus : Sign ['-'] true

/-- An integer of a sign and a magnitude. -/
def signed (negative : Bool) (n : Nat) : Int :=
  if negative then -n else n

namespace Decimal

/-- A point with digits after it, which may be none, or no point. -/
inductive Fraction : List Char → List Nat → Prop
  | none : Fraction [] []
  | some {cs ds} : Spells cs ds → Fraction ('.' :: cs) ds

/-- Digits and a fraction, with at least one digit in all. -/
inductive Significand : List Char → List Nat → List Nat → Prop
  | mk {cs ds after fraction} : Spells cs ds → Fraction after fraction → ¬(ds = [] ∧ fraction = []) →
      Significand (cs ++ after) ds fraction

/-- A power of ten, or none. -/
inductive Power : List Char → Int → Prop
  | none : Power [] 0
  | some {c sign negative cs ds} : c = 'e' ∨ c = 'E' → Sign sign negative → Spells cs ds → ds ≠ [] →
      Power (c :: (sign ++ cs)) (signed negative (ofDigits 10 ds))

/-- The texts of numerals. -/
inductive Numeral : List Char → Decimal → Prop
  | mk {sign significand power negative ds fraction exponent} : Sign sign negative →
      Significand significand ds fraction → Power power exponent →
      Numeral (sign ++ (significand ++ power))
        ⟨negative, ofDigits 10 (ds ++ fraction), exponent - fraction.length⟩

/-- The longest numeral that a text begins with. -/
structure Longest (cs lead : List Char) (d : Decimal) : Prop where
  leads : lead <+: cs
  numeral : Numeral lead d
  most : ∀ other e, other <+: cs → Numeral other e → other.length ≤ lead.length

/-- The character stands in the digits of a significand or between them. -/
def InSignificand (c : Char) : Prop :=
  isDigit c = true ∨ c = '.'

instance (c : Char) : Decidable (InSignificand c) :=
  inferInstanceAs (Decidable (_ ∨ _))

/-- The first character of a text, if there is one, is of some kind. -/
def Begins (p : Char → Prop) (cs : List Char) : Prop :=
  ∃ c rest, cs = c :: rest ∧ p c

/-! Digits. -/

theorem readDigits_spells (cs : List Char) :
    ∃ lead, cs = lead ++ (readDigits cs).2 ∧ Spells lead (readDigits cs).1 := by
  fun_induction readDigits cs with
  | case1 => exact ⟨[], rfl, .nil⟩
  | case2 c rest d hd ds after hrest ih =>
    rw [hrest] at ih
    obtain ⟨lead, rfl, hlead⟩ := ih
    exact ⟨c :: lead, rfl, .cons hd hlead⟩
  | case3 c rest hc => exact ⟨[], rfl, .nil⟩

theorem readDigits_append {cs : List Char} {ds : List Nat} (h : Spells cs ds) (rest : List Char) :
    readDigits (cs ++ rest) = (ds ++ (readDigits rest).1, (readDigits rest).2) := by
  induction h with
  | nil => rfl
  | cons hc _ ih => simp [readDigits, hc, ih]

/-- Digits are read until there are no more. -/
theorem readDigits_cases (cs : List Char) :
    readDigits cs = ([], cs) ∨
      Begins (isDigit · = true) cs ∧ (readDigits cs).1 ≠ [] ∧ (readDigits cs).2.length < cs.length := by
  cases cs with
  | nil => exact .inl rfl
  | cons c rest =>
    cases hc : digit? c with
    | none => exact .inl (by rw [readDigits, hc])
    | some d =>
      obtain ⟨lead, hsplit, -⟩ := readDigits_spells rest
      have hlength : rest.length = lead.length + (readDigits rest).2.length := by
        rw [← List.length_append, ← hsplit]
      refine .inr ⟨⟨c, rest, rfl, Option.isSome_of_eq_some hc⟩, ?_, ?_⟩
      · simp [readDigits, hc]
      · simp only [readDigits, hc, List.length_cons]
        omega

theorem length_readDigits_le (cs : List Char) : (readDigits cs).2.length ≤ cs.length := by
  rcases readDigits_cases cs with h | ⟨-, -, h⟩
  · rw [h]
  · exact h.le

/-! Significands. -/

/-- The digits after a point, if there is one. -/
def readFraction : List Char → List Nat × List Char
  | '.' :: rest => readDigits rest
  | rest => ([], rest)

theorem readSignificand?_eq (cs : List Char) :
    readSignificand? cs =
      let (ds, rest) := readDigits cs
      let (fraction, after) := readFraction rest
      if ds = [] ∧ fraction = [] then none else some (ds, fraction, after) := by
  unfold readSignificand?
  split
  · next rest hds =>
    rw [hds]
    simp only [readFraction]
    split <;> simp_all
  · next rest hpoint hds =>
    rw [hds]
    cases rest <;> simp_all [readFraction]
  · next ds rest hne hds =>
    rw [hds]
    simp only [readFraction]
    simp_all
  · next ds rest hpoint hne hds =>
    rw [hds]
    simp_all [readFraction]

theorem readFraction_fraction (cs : List Char) :
    ∃ lead, cs = lead ++ (readFraction cs).2 ∧ Fraction lead (readFraction cs).1 := by
  unfold readFraction
  split
  · next rest =>
    obtain ⟨lead, hsplit, hlead⟩ := readDigits_spells rest
    exact ⟨'.' :: lead, congrArg ('.' :: ·) hsplit, .some hlead⟩
  · exact ⟨[], rfl, .none⟩

theorem length_readFraction_le (cs : List Char) : (readFraction cs).2.length ≤ cs.length := by
  obtain ⟨lead, hsplit, -⟩ := readFraction_fraction cs
  rw [hsplit, List.length_append, ← hsplit]
  omega

theorem readFraction_append {cs : List Char} {ds : List Nat} (h : Fraction cs ds) (rest : List Char) :
    readFraction (cs ++ rest) = (ds, rest) ∨
      Begins InSignificand rest ∧ ds <+: (readFraction (cs ++ rest)).1 ∧
        (readFraction (cs ++ rest)).2.length < rest.length := by
  cases h with
  | none =>
    rw [List.nil_append]
    unfold readFraction
    split
    · next rest =>
      exact .inr ⟨⟨'.', rest, rfl, .inr rfl⟩, List.nil_prefix,
        Nat.lt_succ_of_le (length_readDigits_le rest)⟩
    · exact .inl rfl
  | some hds =>
    rw [List.cons_append, readFraction, readDigits_append hds]
    rcases readDigits_cases rest with hnone | ⟨⟨c, more, hc, hdigit⟩, -, hlt⟩
    · exact .inl (by rw [hnone, List.append_nil])
    · exact .inr ⟨⟨c, more, hc, .inl hdigit⟩, List.prefix_append _ _, hlt⟩

/-- A point is no digit, so that the digits before it are read apart from those after it. -/
theorem Fraction.eq_nil_of_digit {cs rest : List Char} {ds : List Nat} (h : Fraction cs ds)
    (hrest : Begins (isDigit · = true) (cs ++ rest)) : cs = [] ∧ ds = [] := by
  cases h with
  | none => exact ⟨rfl, rfl⟩
  | some _ =>
    obtain ⟨c, more, hc, hdigit⟩ := hrest
    obtain ⟨rfl, -⟩ := List.cons.inj hc
    exact absurd hdigit (by decide)

theorem readSignificand?_append {cs : List Char} {ds fraction : List Nat} (h : Significand cs ds fraction)
    (rest : List Char) :
    readSignificand? (cs ++ rest) = some (ds, fraction, rest) ∨
      Begins InSignificand rest ∧
        ∃ r, readSignificand? (cs ++ rest) = some r ∧ r.2.2.length < rest.length := by
  obtain ⟨hds, hfraction, hsome⟩ := h
  next cs after =>
  rw [List.append_assoc, readSignificand?_eq, readDigits_append hds]
  rcases readDigits_cases (after ++ rest) with hnone | ⟨hbegins, hmore, hlt⟩
  · rw [hnone, List.append_nil]
    rcases readFraction_append hfraction rest with heq | ⟨hbegins, hleads, hlt⟩
    · exact .inl (by simp [heq, hsome])
    · refine .inr ⟨hbegins, _, if_neg fun hnil => hsome ⟨hnil.1, ?_⟩, hlt⟩
      exact List.prefix_nil.mp (hnil.2 ▸ hleads)
  · -- More digits follow at once, so that there is no point.
    obtain ⟨rfl, rfl⟩ := hfraction.eq_nil_of_digit hbegins
    rw [List.nil_append] at *
    obtain ⟨c, more, hc, hdigit⟩ := hbegins
    refine .inr ⟨⟨c, more, hc, .inl hdigit⟩, _, if_neg ?_, ?_⟩
    · simp [hmore]
    · exact (length_readFraction_le _).trans_lt hlt

theorem readSignificand?_significand {cs rest : List Char} {ds fraction : List Nat}
    (h : readSignificand? cs = some (ds, fraction, rest)) :
    ∃ lead, cs = lead ++ rest ∧ Significand lead ds fraction := by
  rw [readSignificand?_eq] at h
  obtain ⟨digits, hcs, hdigits⟩ := readDigits_spells cs
  obtain ⟨after, hrest, hafter⟩ := readFraction_fraction (readDigits cs).2
  dsimp only at h
  split at h
  · cases h
  · next hsome =>
    cases h
    exact ⟨digits ++ after, by rw [List.append_assoc, ← hrest, ← hcs], .mk hdigits hafter hsome⟩

/-! Signs and powers. -/

theorem readSign_sign (cs : List Char) :
    ∃ lead, cs = lead ++ (readSign cs).2 ∧ Sign lead (readSign cs).1 := by
  unfold readSign
  split
  · exact ⟨['-'], rfl, .minus⟩
  · exact ⟨['+'], rfl, .plus⟩
  · exact ⟨[], rfl, .none⟩

/-- After a sign there is no other. -/
theorem readSign_append {cs rest : List Char} {negative : Bool} (h : Sign cs negative)
    (hrest : Begins InSignificand rest) : readSign (cs ++ rest) = (negative, rest) := by
  cases h with
  | none =>
    obtain ⟨c, more, rfl, hc⟩ := hrest
    rw [List.nil_append]
    unfold readSign
    split
    · next heq =>
      cases heq
      exact absurd hc (by decide)
    · next heq =>
      cases heq
      exact absurd hc (by decide)
    · rfl
  | plus => rfl
  | minus => rfl

theorem Significand.begins {cs : List Char} {ds fraction : List Nat} (h : Significand cs ds fraction)
    (rest : List Char) : Begins InSignificand (cs ++ rest) := by
  obtain ⟨hds, hfraction, hsome⟩ := h
  cases hds with
  | nil =>
    cases hfraction with
    | none => exact absurd ⟨rfl, rfl⟩ hsome
    | some _ => exact ⟨'.', _, rfl, .inr rfl⟩
  | cons hc _ => exact ⟨_, _, rfl, .inl (Option.isSome_of_eq_some hc)⟩

theorem readExponent_power (cs : List Char) :
    ∃ lead, cs = lead ++ (readExponent cs).2 ∧ Power lead (readExponent cs).1 := by
  unfold readExponent
  split
  · next c rest =>
    split_ifs with hletter
    · obtain ⟨sign, hrest, hsign⟩ := readSign_sign rest
      obtain ⟨digits, hunsigned, hdigits⟩ := readDigits_spells (readSign rest).2
      dsimp only
      split
      · exact ⟨[], rfl, .none⟩
      · next ds after hne hds =>
        rw [hds] at hunsigned hdigits
        refine ⟨c :: (sign ++ digits), ?_, ?_⟩
        · rw [List.cons_append, List.append_assoc, ← hunsigned, ← hrest]
        · exact .some (by simpa using hletter) hsign hdigits hne
    · exact ⟨[], rfl, .none⟩
  · exact ⟨[], rfl, .none⟩

theorem Power.eq_nil_of_begins {cs rest : List Char} {k : Int} (h : Power cs k)
    (hrest : Begins InSignificand (cs ++ rest)) : cs = [] := by
  cases h with
  | none => rfl
  | some hletter =>
    obtain ⟨c, more, hc, hin⟩ := hrest
    obtain ⟨rfl, -⟩ := List.cons.inj hc
    rcases hletter with rfl | rfl <;> exact absurd hin (by decide)

theorem Spells.begins {cs : List Char} {ds : List Nat} (h : Spells cs ds) (hne : ds ≠ []) (rest : List Char) :
    Begins InSignificand (cs ++ rest) := by
  cases h with
  | nil => exact absurd rfl hne
  | cons hc _ => exact ⟨_, _, rfl, .inl (Option.isSome_of_eq_some hc)⟩

theorem readExponent_append {cs : List Char} {k : Int} (h : Power cs k) (rest : List Char) :
    readExponent (cs ++ rest) = (k, rest) ∨ (readExponent (cs ++ rest)).2.length < rest.length := by
  cases h with
  | none =>
    obtain ⟨lead, hsplit, hpower⟩ := readExponent_power rest
    rw [List.nil_append]
    cases lead with
    | nil =>
      have hzero : (readExponent rest).1 = 0 := by
        generalize (readExponent rest).1 = k at hpower
        cases hpower
        rfl
      exact .inl (Prod.ext hzero hsplit.symm)
    | cons c lead =>
      refine .inr ?_
      have hlength := congrArg List.length hsplit
      rw [List.length_append, List.length_cons] at hlength
      omega
  | some hletter hsign hds hne =>
    next c sign negative digits ds =>
    have hread : readExponent (c :: (sign ++ digits) ++ rest) =
        (signed negative (ofDigits 10 (ds ++ (readDigits rest).1)), (readDigits rest).2) := by
      rw [List.cons_append, List.append_assoc, readExponent, if_pos (by simpa using hletter),
        readSign_append hsign (Spells.begins hds hne rest)]
      simp only [readDigits_append hds]
      split
      · next hnil => simp_all
      · next heq =>
        cases heq
        rfl
    rw [hread]
    rcases readDigits_cases rest with hnone | ⟨-, -, hlt⟩
    · exact .inl (by rw [hnone, List.append_nil])
    · exact .inr hlt

/-! Numerals. -/

/-- What is read is a numeral that the text begins with. -/
theorem read?_numeral {cs rest : List Char} {d : Decimal} (h : read? cs = some (d, rest)) :
    ∃ lead, cs = lead ++ rest ∧ Numeral lead d := by
  obtain ⟨sign, hcs, hsign⟩ := readSign_sign cs
  unfold read? at h
  dsimp only at h
  cases hread : readSignificand? (readSign cs).2 with
  | none =>
    rw [hread] at h
    cases h
  | some r =>
    obtain ⟨ds, fraction, more⟩ := r
    rw [hread] at h
    cases h
    obtain ⟨significand, hunsigned, hsignificand⟩ := readSignificand?_significand hread
    obtain ⟨power, hmore, hpower⟩ := readExponent_power more
    refine ⟨sign ++ (significand ++ power), ?_, .mk hsign hsignificand hpower⟩
    rw [List.append_assoc, List.append_assoc, ← hmore, ← hunsigned, ← hcs]

/-- If a text begins with a numeral, that numeral is read or a longer one. -/
theorem read?_append {cs : List Char} {d : Decimal} (h : Numeral cs d) (rest : List Char) :
    read? (cs ++ rest) = some (d, rest) ∨
      ∃ r, read? (cs ++ rest) = some r ∧ r.2.length < rest.length := by
  obtain ⟨hsign, hsignificand, hpower⟩ := h
  next sign significand power negative ds fraction exponent =>
  have hsplit : sign ++ (significand ++ power) ++ rest = sign ++ (significand ++ (power ++ rest)) := by
    simp only [List.append_assoc]
  rw [hsplit, read?, readSign_append hsign (hsignificand.begins _)]
  dsimp only
  rcases readSignificand?_append hsignificand (power ++ rest) with heq | ⟨hbegins, r, hr, hlt⟩
  · rw [heq]
    rcases readExponent_append hpower rest with hexponent | hlt
    · exact .inl (by simp only [hexponent])
    · exact .inr ⟨_, rfl, hlt⟩
  · -- A digit or a point begins no power.
    obtain rfl := hpower.eq_nil_of_begins hbegins
    rw [List.nil_append] at *
    obtain ⟨lead, hmore, -⟩ := readExponent_power r.2.2
    have hle : (readExponent r.2.2).2.length ≤ r.2.2.length := by
      conv_rhs => rw [hmore, List.length_append]
      exact Nat.le_add_left _ _
    rw [hr]
    exact .inr ⟨_, rfl, hle.trans_lt hlt⟩

/-- A text is one numeral at most. -/
theorem read?_of_numeral {cs : List Char} {d : Decimal} (h : Numeral cs d) : read? cs = some (d, []) := by
  rcases read?_append h [] with heq | ⟨r, -, hlt⟩
  · rwa [List.append_nil] at heq
  · exact absurd hlt (Nat.not_lt_zero _)

theorem read?_eq_none_iff {cs : List Char} : read? cs = none ↔ ∀ lead d, lead <+: cs → ¬Numeral lead d := by
  constructor
  · rintro hnone lead d ⟨rest, rfl⟩ hlead
    rcases read?_append hlead rest with heq | ⟨r, heq, -⟩ <;> rw [hnone] at heq <;> cases heq
  · intro hno
    cases hread : read? cs with
    | none => rfl
    | some r =>
      obtain ⟨lead, hcs, hlead⟩ := read?_numeral hread
      exact absurd hlead (hno lead r.1 ⟨r.2, hcs.symm⟩)

theorem read?_longest {cs rest : List Char} {d : Decimal} (h : read? cs = some (d, rest)) :
    ∃ lead, Longest cs lead d := by
  obtain ⟨lead, hcs, hlead⟩ := read?_numeral h
  refine ⟨lead, ⟨rest, hcs.symm⟩, hlead, ?_⟩
  rintro other e ⟨more, hother⟩ hnumeral
  have hlength := congrArg List.length (hother.trans hcs)
  rw [List.length_append, List.length_append] at hlength
  have hle : rest.length ≤ more.length := by
    rw [← hother] at h
    rcases read?_append hnumeral more with heq | ⟨r, heq, hlt⟩
    · rw [h] at heq
      cases heq
      exact le_rfl
    · rw [h] at heq
      cases heq
      exact hlt.le
  omega

theorem Longest.unique {cs lead lead' : List Char} {d d' : Decimal} (h : Longest cs lead d)
    (h' : Longest cs lead' d') : d = d' := by
  have hlength : lead.length = lead'.length :=
    Nat.le_antisymm (h'.most _ _ h.leads h.numeral) (h.most _ _ h'.leads h'.numeral)
  have hlead : lead = lead' :=
    (List.prefix_of_prefix_length_le h.leads h'.leads hlength.le).eq_of_length hlength
  have hread := read?_of_numeral h.numeral
  rw [hlead, read?_of_numeral h'.numeral] at hread
  cases hread
  rfl

/-- The numeral that counts is the longest one that the text begins with. -/
theorem leading?_eq_some_iff {s : String} {d : Decimal} :
    leading? s = some d ↔ ∃ lead, Longest (s.toList.dropWhile isBlank) lead d := by
  unfold leading?
  constructor
  · intro h
    obtain ⟨⟨e, rest⟩, hread, rfl⟩ := Option.map_eq_some_iff.mp h
    exact read?_longest hread
  · rintro ⟨lead, hlead⟩
    cases hread : read? (s.toList.dropWhile isBlank) with
    | none => exact absurd hlead.numeral (read?_eq_none_iff.mp hread lead d hlead.leads)
    | some r =>
      obtain ⟨lead', hlead'⟩ := read?_longest hread
      rw [hlead.unique hlead', Option.map_some]

example : leading? "\t1.e5.5%" = some ⟨false, 1, 5⟩ := by decide

theorem leading?_eq_none_iff {s : String} :
    leading? s = none ↔ ∀ lead d, lead <+: s.toList.dropWhile isBlank → ¬Numeral lead d := by
  rw [leading?, Option.map_eq_none_iff, read?_eq_none_iff]

end Decimal

end LoadPlan.Number
