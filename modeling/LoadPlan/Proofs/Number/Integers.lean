import Mathlib.Data.List.DropRight
import Mathlib.Data.List.Forall2
import Mathlib.Tactic.IntervalCases
import LoadPlan.Proofs.Markup.LineEnds
import LoadPlan.Proofs.Number.Limits
import LoadPlan.Proofs.Number.Numerals

/-! The texts of integers, and that an integer is read back from its own text unless it is too long. -/
namespace LoadPlan

namespace Text

variable {c : Char} {ds : List Nat} {p q : Char → Bool} {cs : List Char}

theorem digit?_lt {d : Nat} (h : digit? c = some d) : d < 10 := by
  unfold digit? at h
  obtain ⟨z, hz, rfl⟩ := Option.map_eq_some_iff.mp h
  have hrange := List.find?_some hz
  simp only [Bool.and_eq_true, decide_eq_true_eq] at hrange
  omega

theorem digit?_digitChar {d : Nat} (h : d < 10) : digit? (Nat.digitChar d) = some d := by
  interval_cases d <;> decide

theorem ofDigits_concat (base : Nat) (ds : List Nat) (d : Nat) :
    ofDigits base (ds ++ [d]) = base * ofDigits base ds + d := by
  simp [ofDigits]

theorem ofDigits_lt (h : ∀ d ∈ ds, d < 10) : ofDigits 10 ds < 10 ^ ds.length := by
  induction ds using List.reverseRecOn with
  | nil => simp [ofDigits]
  | append_singleton ds d ih =>
    have hds := ih fun x hx => h x (List.mem_append_left _ hx)
    have hd := h d (List.mem_append_right _ (List.mem_singleton_self d))
    rw [ofDigits_concat, List.length_append, List.length_singleton, pow_succ]
    omega

/-- A text is not shortened if neither of its ends is to be dropped. -/
theorem stripWhere_eq_self (hfirst : ∀ c ∈ cs.head?, p c = false) (hlast : ∀ c ∈ cs.getLast?, p c = false) :
    stripWhere p cs = cs := by
  have hdrop : ∀ {cs : List Char}, (∀ c ∈ cs.head?, p c = false) → cs.dropWhile p = cs := by
    intro cs h
    cases cs with
    | nil => rfl
    | cons c cs => rw [List.dropWhile_cons_of_neg (by simp [h c rfl])]
  rw [stripWhere, hdrop hfirst, hdrop (by simpa using hlast), List.reverse_reverse]

theorem head?_stripWhere (p : Char → Bool) (cs : List Char) : ∀ c ∈ (stripWhere p cs).head?, p c = false := by
  intro c hc
  obtain ⟨after, hafter⟩ : stripWhere p cs <+: cs.dropWhile p := List.rdropWhile_prefix p _
  have h := List.head?_dropWhile_not p cs
  cases hstrip : stripWhere p cs with
  | nil =>
    rw [hstrip] at hc
    cases hc
  | cons d rest =>
    rw [hstrip] at hc hafter
    cases hc
    rw [← hafter] at h
    exact h

theorem getLast?_stripWhere (p : Char → Bool) (cs : List Char) :
    ∀ c ∈ (stripWhere p cs).getLast?, p c = false := by
  intro c hc
  rw [stripWhere, List.getLast?_reverse] at hc
  have h := List.head?_dropWhile_not p (cs.dropWhile p).reverse
  rw [hc] at h
  exact h

end Text

namespace Number.Integer

open LoadPlan.Text

/-- Digits with one underscore at most between two of them. -/
inductive Grouped : List Char → List Nat → Prop
  | one {c d} : digit? c = some d → Grouped [c] [d]
  | next {c d cs ds} : digit? c = some d → Grouped cs ds → Grouped (c :: cs) (d :: ds)
  | apart {c d cs ds} : digit? c = some d → Grouped cs ds → Grouped (c :: '_' :: cs) (d :: ds)

/-- The texts of integers: a sign, if there is one, and digits, not too many. -/
inductive Written : List Char → Int → Prop
  | mk {sign cs negative ds} : Sign sign negative → Grouped cs ds → ds.length ≤ digitLimit →
      Written (sign ++ cs) (signed negative (ofDigits 10 ds))

variable {cs : List Char} {ds : List Nat} {k : Int}

theorem digits?_eq_some_iff : digits? cs = some ds ↔ Grouped cs ds := by
  constructor
  · intro h
    fun_induction digits? cs generalizing ds with
    | case1 => cases h
    | case2 c =>
      obtain ⟨d, hd, rfl⟩ := Option.map_eq_some_iff.mp h
      exact .one hd
    | case3 c rest d rs hrs hd ih =>
      cases h
      exact .apart hd (ih hrs)
    | case4 => cases h
    | case5 c rest _ _ d rs hrs hd ih =>
      cases h
      exact .next hd (ih hrs)
    | case6 => cases h
  · intro h
    induction h with
    | one hd => simp [digits?, hd]
    | next hd hrest ih =>
      rw [digits?, hd, ih]
      · rintro rfl
        cases hrest
      · rintro rest rfl
        have hno : digit? '_' = none := by decide
        cases hrest <;> simp_all
    | apart hd _ ih => rw [digits?, hd, ih]

theorem Written.natAbs_lt {cs : List Char} {k : Int} (h : Written cs k) : k.natAbs < 10 ^ digitLimit := by
  obtain ⟨-, hds, hlength⟩ := h
  next sign cs negative ds =>
  have hdigits : ∀ {cs ds}, Grouped cs ds → ∀ d ∈ ds, d < 10 := by
    intro cs ds h
    induction h with
    | one hd => exact List.forall_mem_singleton.mpr (digit?_lt hd)
    | next hd _ ih => exact List.forall_mem_cons.mpr ⟨digit?_lt hd, ih⟩
    | apart hd _ ih => exact List.forall_mem_cons.mpr ⟨digit?_lt hd, ih⟩
  have hlt := (ofDigits_lt (hdigits hds)).trans_le (Nat.pow_le_pow_right (by decide) hlength)
  have habs : (signed negative (ofDigits 10 ds)).natAbs = ofDigits 10 ds := by
    unfold signed
    split <;> simp
  rwa [habs]

/-- After a sign there is a digit, which is no sign. -/
theorem readSign_written {sign : List Char} {negative : Bool} (hsign : Sign sign negative) (h : Grouped cs ds) :
    Decimal.readSign (sign ++ cs) = (negative, cs) := by
  refine Decimal.readSign_append hsign ?_
  cases h with
  | one hd => exact ⟨_, _, rfl, .inl (Option.isSome_of_eq_some hd)⟩
  | next hd _ => exact ⟨_, _, rfl, .inl (Option.isSome_of_eq_some hd)⟩
  | apart hd _ => exact ⟨_, _, rfl, .inl (Option.isSome_of_eq_some hd)⟩

/-- A text without blanks around it holds an integer if it is written as one. -/
theorem read?_strip_eq_some_iff {s : String} : read? (strip s) = some k ↔ Written (strip s).toList k := by
  have hstrip : stripWhere isSpace (strip s).toList = (strip s).toList := by
    have hspace : ∀ c, isBlank c = false → isSpace c = false := fun c hc => by rw [isSpace, hc, Bool.false_and]
    rw [strip, String.toList_ofList]
    exact stripWhere_eq_self (fun c hc => hspace c (head?_stripWhere _ _ c hc))
      fun c hc => hspace c (getLast?_stripWhere _ _ c hc)
  unfold read?
  rw [hstrip]
  generalize (strip s).toList = cs
  dsimp only
  constructor
  · intro h
    obtain ⟨sign, hcs, hsign⟩ := Decimal.readSign_sign cs
    generalize Decimal.readSign cs = r at *
    subst hcs
    cases hread : digits? r.2 with
    | none =>
      rw [hread] at h
      cases h
    | some ds =>
      rw [hread] at h
      dsimp only at h
      split at h
      · cases h
      · next hlength =>
        cases h
        exact .mk hsign (digits?_eq_some_iff.mp hread) (not_lt.mp hlength)
  · rintro ⟨hsign, hds, hlength⟩
    rw [readSign_written hsign hds, digits?_eq_some_iff.mpr hds]
    dsimp only
    rw [if_neg (not_lt.mpr hlength)]
    rfl

/-- What is read is not too long to be written. -/
theorem text?_of_read?_strip {s : String} (h : read? (strip s) = some k) : text? k ≠ none := by
  have hlt := (read?_strip_eq_some_iff.mp h).natAbs_lt
  rw [Ne, text?_eq_none_iff]
  omega

/-! The text of an integer. -/

theorem grouped_of_spells (h : Spells cs ds) (hne : ds ≠ []) : Grouped cs ds := by
  induction h with
  | nil => exact absurd rfl hne
  | cons hc hcs ih =>
    cases hcs with
    | nil => exact .one hc
    | cons => exact .next hc (ih (List.cons_ne_nil _ _))

theorem spells_toDigits (n : Nat) : ∃ ds, Spells (Nat.toDigits 10 n) ds ∧ ofDigits 10 ds = n := by
  induction n using Nat.strongRecOn with
  | ind n ih =>
    by_cases hn : n < 10
    · rw [Nat.toDigits_of_lt_base hn]
      exact ⟨[n], .cons (digit?_digitChar hn) .nil, by simp [ofDigits]⟩
    · obtain ⟨ds, hds, hvalue⟩ := ih (n / 10) (by omega)
      rw [Nat.toDigits_of_base_le (by decide) (not_lt.mp hn)]
      refine ⟨ds ++ [n % 10], List.rel_append hds (.cons (digit?_digitChar (Nat.mod_lt _ (by decide))) .nil), ?_⟩
      rw [ofDigits_concat, hvalue]
      omega

theorem toList_text (k : Int) : ∃ sign negative, Sign sign negative ∧
    (text k).toList = sign ++ Nat.toDigits 10 k.natAbs ∧ signed negative k.natAbs = k := by
  unfold text
  split
  · exact ⟨['-'], true, .minus, by simp, by rw [signed, if_pos rfl]; omega⟩
  · exact ⟨[], false, .none, by simp, by rw [signed, if_neg Bool.false_ne_true]; omega⟩

/-- An integer is written by its text unless that is too long. -/
theorem written_text (h : k.natAbs < 10 ^ digitLimit) : Written (text k).toList k := by
  obtain ⟨sign, negative, hsign, htext, hk⟩ := toList_text k
  obtain ⟨ds, hds, hvalue⟩ := spells_toDigits k.natAbs
  have hlength : ds.length ≤ digitLimit := by
    rw [← hds.length_eq]
    exact (Nat.length_toDigits_le_iff (by decide) (by decide)).mpr h
  have hne : ds ≠ [] := by
    rintro rfl
    exact Nat.toDigits_ne_nil (List.forall₂_nil_right_iff.mp hds)
  have hwritten := Written.mk hsign (grouped_of_spells hds hne) hlength
  rwa [hvalue, hk, ← htext] at hwritten

/-- There are no blanks in the text of an integer. -/
theorem strip_text (k : Int) : strip (text k) = text k := by
  obtain ⟨sign, negative, hsign, htext, -⟩ := toList_text k
  have hblank : ∀ c ∈ (text k).toList, isBlank c = false := by
    intro c hc
    rw [htext, List.mem_append] at hc
    rcases hc with hc | hc
    · have hsigns : ∀ c ∈ sign, c = '+' ∨ c = '-' := by cases hsign <;> simp
      rcases hsigns c hc with rfl | rfl <;> decide
    · have hdigit := Nat.isDigit_of_mem_toDigits (by decide) (by decide) hc
      simp only [Char.isDigit, Bool.and_eq_true, decide_eq_true_eq, ge_iff_le, UInt32.le_iff_toNat_le] at hdigit
      have hlo : 48 ≤ c.toNat := hdigit.1
      have hhi : c.toNat ≤ 57 := hdigit.2
      simp only [isBlank]
      grind
  rw [strip, stripWhere_eq_self (fun c hc => hblank c (List.mem_of_head? hc))
    fun c hc => hblank c (List.mem_of_getLast? hc), String.ofList_toList]

theorem read?_text (h : k.natAbs < 10 ^ digitLimit) : read? (strip (text k)) = some k := by
  rw [read?_strip_eq_some_iff, strip_text]
  exact written_text h

end Number.Integer

end LoadPlan
