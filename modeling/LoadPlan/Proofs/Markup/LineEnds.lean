import Mathlib.Data.List.DropRight
import LoadPlan.Number.Integer
import LoadPlan.Proofs.Markup.Escaping

/-! What does not depend on the way the lines of a text end: whether it is empty, whether it is or starts
with a certain word, and the integer that it holds. -/
namespace LoadPlan.Text

variable {cs word : List Char} {p : Char → Bool}

theorem unifyLineEnds_eq_nil_iff : unifyLineEnds cs = [] ↔ cs = [] := by
  fun_cases unifyLineEnds cs <;> simp

theorem mem_unifyLineEnds_of_mem (h : '\r' ∈ cs) : '\n' ∈ unifyLineEnds cs := by
  fun_induction unifyLineEnds cs with
  | case1 => cases h
  | case2 rest ih => exact List.mem_cons_self
  | case3 rest _ ih => exact List.mem_cons_self
  | case4 c rest _ hc ih =>
    rcases List.mem_cons.mp h with he | hm
    · exact absurd he.symm hc
    · exact List.mem_cons_of_mem _ (ih hm)

/-- A word has no line end in it. -/
def IsWord (word : List Char) : Prop :=
  '\r' ∉ word ∧ '\n' ∉ word

instance (word : List Char) : Decidable (IsWord word) :=
  inferInstanceAs (Decidable (_ ∧ _))

theorem unifyLineEnds_eq_word_iff (hw : IsWord word) : unifyLineEnds cs = word ↔ cs = word := by
  constructor
  · intro h
    have hr : '\r' ∉ cs := fun hm => hw.2 (h ▸ mem_unifyLineEnds_of_mem hm)
    rwa [unifyLineEnds_of_not_mem hr] at h
  · rintro rfl
    exact unifyLineEnds_of_not_mem hw.1

/-- Only the empty word can stand before a line end. -/
theorem IsWord.isPrefix_lineEnd_iff (hw : IsWord word) {c : Char} (hc : c = '\r' ∨ c = '\n') :
    word <+: c :: cs ↔ word = [] := by
  cases word with
  | nil => simp
  | cons d word =>
    have hr : d ≠ '\r' := fun he => hw.1 (he ▸ List.mem_cons_self)
    have hn : d ≠ '\n' := fun he => hw.2 (he ▸ List.mem_cons_self)
    rcases hc with rfl | rfl <;> simp [List.cons_prefix_cons, hr, hn]

theorem isPrefix_unifyLineEnds_iff (hw : IsWord word) : word <+: unifyLineEnds cs ↔ word <+: cs := by
  fun_induction unifyLineEnds cs generalizing word with
  | case1 => exact Iff.rfl
  | case2 rest ih => rw [hw.isPrefix_lineEnd_iff (.inr rfl), hw.isPrefix_lineEnd_iff (.inl rfl)]
  | case3 rest _ ih => rw [hw.isPrefix_lineEnd_iff (.inr rfl), hw.isPrefix_lineEnd_iff (.inl rfl)]
  | case4 d rest _ hd ih =>
    cases word with
    | nil => simp
    | cons c word =>
      have hword : IsWord word :=
        ⟨fun hm => hw.1 (List.mem_cons_of_mem _ hm), fun hm => hw.2 (List.mem_cons_of_mem _ hm)⟩
      rw [List.cons_prefix_cons, List.cons_prefix_cons, ih hword]

/-! Line ends count as blanks around a text. -/

theorem dropWhile_unifyLineEnds (hr : p '\r' = true) (hn : p '\n' = true) (cs : List Char) :
    (unifyLineEnds cs).dropWhile p = unifyLineEnds (cs.dropWhile p) := by
  fun_induction unifyLineEnds cs with
  | case1 => rfl
  | case2 rest ih => rw [List.dropWhile_cons_of_pos hn, ih, List.dropWhile_cons_of_pos hr,
      List.dropWhile_cons_of_pos hn]
  | case3 rest _ ih => rw [List.dropWhile_cons_of_pos hn, ih, List.dropWhile_cons_of_pos hr]
  | case4 c rest hpair hc ih =>
    by_cases h : p c = true
    · rw [List.dropWhile_cons_of_pos h, ih, List.dropWhile_cons_of_pos h]
    · rw [List.dropWhile_cons_of_neg h, List.dropWhile_cons_of_neg h, unifyLineEnds]
      · exact hpair
      · exact hc

/-- One more character at the end of a text leaves the text before it as it was. A line end may be lost
or changed, any other character stays. -/
theorem unifyLineEnds_concat (cs : List Char) (c : Char) :
    ∃ tail, unifyLineEnds (cs ++ [c]) = unifyLineEnds cs ++ tail ∧
      (tail = [c] ∨ (c = '\r' ∨ c = '\n') ∧ ∀ x ∈ tail, x = '\n') := by
  fun_induction unifyLineEnds cs with
  | case1 =>
    by_cases hc : c = '\r'
    · subst hc
      exact ⟨['\n'], rfl, .inr ⟨.inl rfl, by simp⟩⟩
    · have hone : '\r' ∉ [c] := by simpa [eq_comm] using hc
      exact ⟨[c], unifyLineEnds_of_not_mem hone, .inl rfl⟩
  | case2 rest ih =>
    obtain ⟨tail, htail, hc⟩ := ih
    refine ⟨tail, ?_, hc⟩
    rw [List.cons_append, List.cons_append, unifyLineEnds, htail, List.cons_append]
  | case3 rest hrest ih =>
    obtain ⟨tail, htail, hc⟩ := ih
    by_cases hlost : rest = [] ∧ c = '\n'
    · obtain ⟨rfl, rfl⟩ := hlost
      exact ⟨[], rfl, .inr ⟨.inr rfl, List.forall_mem_nil _⟩⟩
    · refine ⟨tail, ?_, hc⟩
      rw [List.cons_append, unifyLineEnds, htail, List.cons_append]
      rintro more hmore
      cases rest with
      | nil => exact hlost ⟨rfl, (List.cons.inj hmore).1⟩
      | cons d rest => exact hrest rest (congrArg (· :: rest) (List.cons.inj hmore).1)
  | case4 d rest hpair hd ih =>
    obtain ⟨tail, htail, hc⟩ := ih
    refine ⟨tail, ?_, hc⟩
    rw [List.cons_append, unifyLineEnds, htail, List.cons_append]
    · rintro more rfl
      exact absurd rfl hd
    · exact hd

theorem rdropWhile_unifyLineEnds (hr : p '\r' = true) (hn : p '\n' = true) (cs : List Char) :
    (unifyLineEnds cs).rdropWhile p = unifyLineEnds (cs.rdropWhile p) := by
  induction cs using List.reverseRecOn with
  | nil => rfl
  | append_singleton cs c ih =>
    obtain ⟨tail, htail, hc⟩ := unifyLineEnds_concat cs c
    by_cases h : p c = true
    · have hblank : ∀ x ∈ tail, p x = true := by
        intro x hx
        rcases hc with rfl | ⟨-, hall⟩
        · rwa [List.mem_singleton.mp hx]
        · rwa [hall x hx]
      have hdropped : (unifyLineEnds cs ++ tail).rdropWhile p = (unifyLineEnds cs).rdropWhile p := by
        unfold List.rdropWhile
        rw [List.reverse_append, List.dropWhile_append_of_pos]
        intro x hx
        exact hblank x (List.mem_reverse.mp hx)
      rw [List.rdropWhile_concat_pos _ _ _ h, htail, hdropped, ih]
    · have hstays : tail = [c] := by
        rcases hc with hc | ⟨rfl | rfl, -⟩
        · exact hc
        · exact absurd hr h
        · exact absurd hn h
      rw [List.rdropWhile_concat_neg _ _ _ h, htail, hstays, List.rdropWhile_concat_neg _ _ _ h]

theorem stripWhere_unifyLineEnds (hr : p '\r' = true) (hn : p '\n' = true) (cs : List Char) :
    stripWhere p (unifyLineEnds cs) = unifyLineEnds (stripWhere p cs) := by
  have hstrip : ∀ cs, stripWhere p cs = (cs.dropWhile p).rdropWhile p := fun _ => rfl
  rw [hstrip, hstrip, dropWhile_unifyLineEnds hr hn, rdropWhile_unifyLineEnds hr hn]

end LoadPlan.Text

namespace LoadPlan.Number.Integer

open LoadPlan.Text

theorem readSign_of_unsigned {c : Char} (hminus : c ≠ '-') (hplus : c ≠ '+') (rest : List Char) :
    Decimal.readSign (c :: rest) = (false, c :: rest) := by
  unfold Decimal.readSign
  split
  · next heq => exact absurd (List.cons.inj heq).1 hminus
  · next heq => exact absurd (List.cons.inj heq).1 hplus
  · rfl

theorem readSign_unifyLineEnds (cs : List Char) :
    Decimal.readSign (unifyLineEnds cs) =
      ((Decimal.readSign cs).1, unifyLineEnds (Decimal.readSign cs).2) := by
  fun_cases unifyLineEnds cs with
  | case1 => rfl
  | case2 rest => rfl
  | case3 rest hpair =>
    rw [readSign_of_unsigned (by decide) (by decide), readSign_of_unsigned (by decide) (by decide),
      unifyLineEnds]
    exact hpair
  | case4 c rest hpair hc =>
    by_cases hminus : c = '-'
    · rw [hminus]
      rfl
    · by_cases hplus : c = '+'
      · rw [hplus]
        rfl
      · rw [readSign_of_unsigned hminus hplus, readSign_of_unsigned hminus hplus, unifyLineEnds]
        · exact hpair
        · exact hc

/-- Only digits and underscores make up a number. -/
theorem isDigit_of_digits? {cs : List Char} {ds : List Nat} (h : digits? cs = some ds) :
    ∀ c ∈ cs, c = '_' ∨ isDigit c = true := by
  have hdigit : ∀ {c d}, digit? c = some d → isDigit c = true := fun hd => Option.isSome_of_eq_some hd
  fun_induction digits? cs generalizing ds with
  | case1 => cases h
  | case2 c =>
    obtain ⟨d, hd, -⟩ := Option.map_eq_some_iff.mp h
    exact List.forall_mem_singleton.mpr (.inr (hdigit hd))
  | case3 c rest d rs hrs hd ih =>
    exact List.forall_mem_cons.mpr ⟨.inr (hdigit hd), List.forall_mem_cons.mpr ⟨.inl rfl, ih hrs⟩⟩
  | case4 => cases h
  | case5 c rest _ _ d rs hrs hd ih =>
    exact List.forall_mem_cons.mpr ⟨.inr (hdigit hd), ih hrs⟩
  | case6 => cases h

theorem digits?_unifyLineEnds (cs : List Char) : digits? (unifyLineEnds cs) = digits? cs := by
  by_cases hr : '\r' ∈ cs
  · have hnone : ∀ {cs : List Char} {c : Char}, c ∈ cs → c ≠ '_' → isDigit c = false → digits? cs = none := by
      intro cs c hc hu hd
      rw [Option.eq_none_iff_forall_ne_some]
      intro ds hds
      rcases isDigit_of_digits? hds c hc with h | h
      · exact hu h
      · rw [hd] at h
        cases h
    rw [hnone hr (by decide) (by decide), hnone (mem_unifyLineEnds_of_mem hr) (by decide) (by decide)]
  · rw [unifyLineEnds_of_not_mem hr]

/-- The integer in a text is the same whatever ends its lines. -/
theorem read?_unifyLineEnds (text : String) :
    read? (String.ofList (unifyLineEnds text.toList)) = read? text := by
  have hstrip := stripWhere_unifyLineEnds (p := isSpace) (by decide) (by decide) text.toList
  unfold read?
  rw [String.toList_ofList, hstrip, readSign_unifyLineEnds]
  simp only [digits?_unifyLineEnds]

end LoadPlan.Number.Integer
