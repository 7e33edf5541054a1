import Mathlib.Data.List.Basic
import LoadPlan.Proofs.Markup.Escaping

/-! Escaping can be undone. Decoding the references from left to right gives the text back, whatever it looked
like: an escaped text has references where something was replaced, and no ampersand anywhere else. -/
namespace LoadPlan.Markup.Escape

/-- The names of the references, and the characters that they stand for. -/
def references : List (String × Char) :=
  [("amp", '&'), ("lt", '<'), ("gt", '>'), ("quot", '"'), ("#10", '\n'), ("#13", '\r'), ("#9", '\t')]

def reference (name : String) : String :=
  "&" ++ name ++ ";"

/-- The characters that a reference is put in the place of. -/
def isReplaced (quoted : Bool) (c : Char) : Bool :=
  c == '&' || isEscaped quoted c

variable {quoted : Bool} {c : Char} {name : String}

theorem mem_references_iff : (name, c) ∈ references ↔
    name = "amp" ∧ c = '&' ∨ name = "lt" ∧ c = '<' ∨ name = "gt" ∧ c = '>' ∨ name = "quot" ∧ c = '"' ∨
      name = "#10" ∧ c = '\n' ∨ name = "#13" ∧ c = '\r' ∨ name = "#9" ∧ c = '\t' := by
  simp only [references, List.mem_cons, Prod.mk.injEq, List.not_mem_nil, or_false]

/-- A reference begins with its only ampersand. -/
theorem toList_reference (h : (name, c) ∈ references) :
    ∃ body, (reference name).toList = '&' :: body ∧ '&' ∉ body := by
  rw [mem_references_iff] at h
  rcases h with ⟨rfl, rfl⟩ | ⟨rfl, rfl⟩ | ⟨rfl, rfl⟩ | ⟨rfl, rfl⟩ | ⟨rfl, rfl⟩ | ⟨rfl, rfl⟩ | ⟨rfl, rfl⟩ <;>
    exact ⟨_, rfl, by decide⟩

theorem decode_reference (h : (name, c) ∈ references) (rest : List Char) :
    decode ((reference name).toList ++ rest) = c :: decode rest := by
  rw [mem_references_iff] at h
  rcases h with ⟨rfl, rfl⟩ | ⟨rfl, rfl⟩ | ⟨rfl, rfl⟩ | ⟨rfl, rfl⟩ | ⟨rfl, rfl⟩ | ⟨rfl, rfl⟩ | ⟨rfl, rfl⟩ <;> rfl

/-- Where no reference begins, a character stands for itself. -/
theorem decode_cons {rest : List Char} (h : ∀ r ∈ references, ¬(reference r.1).toList <+: c :: rest) :
    decode (c :: rest) = c :: decode rest := by
  have hno : ∀ name char, (name, char) ∈ references → ∀ after : List Char,
      c :: rest ≠ (reference name).toList ++ after :=
    fun name char hr after heq => h _ hr ⟨after, heq.symm⟩
  rw [decode]
  · rintro after rfl rfl
    exact hno "amp" '&' (by decide) after rfl
  · rintro after rfl rfl
    exact hno "lt" '<' (by decide) after rfl
  · rintro after rfl rfl
    exact hno "gt" '>' (by decide) after rfl
  · rintro after rfl rfl
    exact hno "quot" '"' (by decide) after rfl
  · rintro after rfl rfl
    exact hno "#10" '\n' (by decide) after rfl
  · rintro after rfl rfl
    exact hno "#13" '\r' (by decide) after rfl
  · rintro after rfl rfl
    exact hno "#9" '\t' (by decide) after rfl

theorem decode_cons_of_ne (h : c ≠ '&') (rest : List Char) : decode (c :: rest) = c :: decode rest := by
  refine decode_cons fun r hr hp => ?_
  obtain ⟨body, hbody, -⟩ := toList_reference hr
  rw [hbody, List.cons_prefix_cons] at hp
  exact h hp.1.symm

/-- A character stays, or a reference to it stands in its place. -/
theorem encodeChar_eq (quoted : Bool) (c : Char) :
    (isReplaced quoted c = true ∧
      ∃ name, (name, c) ∈ references ∧ encodeChar quoted c = (reference name).toList) ∨
    isReplaced quoted c = false ∧ encodeChar quoted c = [c] := by
  unfold encodeChar
  split
  · exact .inl ⟨rfl, "amp", by decide, rfl⟩
  · exact .inl ⟨rfl, "lt", by decide, rfl⟩
  · exact .inl ⟨rfl, "gt", by decide, rfl⟩
  · cases quoted with
    | true => exact .inl ⟨rfl, "quot", by decide, rfl⟩
    | false => exact .inr ⟨rfl, rfl⟩
  · cases quoted with
    | true => exact .inl ⟨rfl, "#10", by decide, rfl⟩
    | false => exact .inr ⟨rfl, rfl⟩
  · cases quoted with
    | true => exact .inl ⟨rfl, "#13", by decide, rfl⟩
    | false => exact .inr ⟨rfl, rfl⟩
  · cases quoted with
    | true => exact .inl ⟨rfl, "#9", by decide, rfl⟩
    | false => exact .inr ⟨rfl, rfl⟩
  · refine .inr ⟨?_, rfl⟩
    simp_all [isReplaced, isEscaped]

theorem decode_encodeChar (c : Char) (rest : List Char) :
    decode (encodeChar quoted c ++ rest) = c :: decode rest := by
  rcases encodeChar_eq quoted c with ⟨-, name, hname, he⟩ | ⟨hkept, he⟩
  · rw [he]
    exact decode_reference hname rest
  · have hamp : c ≠ '&' := by
      rintro rfl
      cases hkept
    rw [he]
    exact decode_cons_of_ne hamp rest

theorem decode_encodeList (cs : List Char) : decode (encodeList quoted cs) = cs := by
  induction cs with
  | nil => rfl
  | cons c cs ih => rw [encodeList_cons, decode_encodeChar, ih]

theorem reference_of_mem_encodeChar {before after : List Char}
    (h : encodeChar quoted c = before ++ '&' :: after) :
    ∃ r ∈ references, (reference r.1).toList = '&' :: after := by
  rcases encodeChar_eq quoted c with ⟨-, name, hname, he⟩ | ⟨hkept, he⟩
  · obtain ⟨body, hbody, hno⟩ := toList_reference hname
    refine ⟨(name, c), hname, ?_⟩
    rw [he, hbody] at h
    cases before with
    | nil => rw [hbody, h, List.nil_append]
    | cons b before =>
      have hin : '&' ∈ body := by
        rw [(List.cons.inj h).2]
        simp
      exact absurd hin hno
  · have hc : '&' ∈ [c] := by
      rw [← he, h]
      simp
    rw [← List.mem_singleton.mp hc] at hkept
    cases hkept

/-- The ampersands of an escaped text are those of its references. -/
theorem reference_of_ampersand {cs before after : List Char}
    (h : encodeList quoted cs = before ++ '&' :: after) :
    ∃ r ∈ references, (reference r.1).toList <+: '&' :: after := by
  induction cs generalizing before with
  | nil => simp [encodeList] at h
  | cons c cs ih =>
    rw [encodeList_cons] at h
    rcases List.append_eq_append_iff.mp h with ⟨between, -, hrest⟩ | ⟨between, hchar, hrest⟩
    · exact ih hrest
    cases between with
    | nil =>
      have htail : encodeList quoted cs = [] ++ '&' :: after := hrest.symm
      exact ih htail
    | cons a between =>
      -- The ampersand is in what stands for the first character.
      obtain ⟨rfl, -⟩ := List.cons.inj hrest
      obtain ⟨r, hr, href⟩ := reference_of_mem_encodeChar hchar
      exact ⟨r, hr, encodeList quoted cs, by rw [href, hrest]⟩

/-- References are longer than what they stand for. -/
theorem length_encodeChar (quoted : Bool) (c : Char) :
    (if isReplaced quoted c then 2 else 1) ≤ (encodeChar quoted c).length := by
  rcases encodeChar_eq quoted c with ⟨hreplaced, name, -, he⟩ | ⟨hkept, he⟩
  · rw [if_pos hreplaced, he, reference, String.toList_append, String.toList_append, List.length_append,
      List.length_append]
    exact Nat.add_le_add (Nat.le_add_right 1 _) (Nat.le_refl 1)
  · rw [hkept, he]
    exact Nat.le_refl 1

theorem length_le_encodeList (quoted : Bool) (cs : List Char) : cs.length ≤ (encodeList quoted cs).length := by
  induction cs with
  | nil => exact Nat.le_refl 0
  | cons c cs ih =>
    have hc := length_encodeChar quoted c
    rw [encodeList_cons, List.length_append, List.length_cons]
    split at hc <;> omega

/-- A text stays as it is just if nothing in it is replaced. -/
theorem encodeList_eq_self_iff {cs : List Char} :
    encodeList quoted cs = cs ↔ ∀ c ∈ cs, isReplaced quoted c = false := by
  induction cs with
  | nil => simp [encodeList]
  | cons c cs ih =>
    rw [encodeList_cons, List.forall_mem_cons]
    rcases encodeChar_eq quoted c with ⟨hreplaced, -⟩ | ⟨hkept, he⟩
    · refine iff_of_false (fun heq => ?_) fun hc => by simp [hreplaced] at hc
      have hlength := congrArg List.length heq
      have hchar := length_encodeChar quoted c
      have hrest := length_le_encodeList quoted cs
      rw [if_pos hreplaced] at hchar
      rw [List.length_append, List.length_cons] at hlength
      omega
    · rw [he, List.singleton_append, List.cons_inj_right, ih]
      simp [hkept]

theorem encode_append (a b : String) : encode quoted (a ++ b) = encode quoted a ++ encode quoted b := by
  rw [encode, String.toList_append, encodeList_append, String.ofList_append]
  rfl

/-- What looks like a reference is escaped like any other text. -/
theorem encode_reference (h : (name, c) ∈ references) :
    encode quoted (reference name) = reference "amp" ++ name ++ ";" := by
  rw [mem_references_iff] at h
  rcases h with ⟨rfl, -⟩ | ⟨rfl, -⟩ | ⟨rfl, -⟩ | ⟨rfl, -⟩ | ⟨rfl, -⟩ | ⟨rfl, -⟩ | ⟨rfl, -⟩ <;>
    cases quoted <;> decide

/-- Decoding undoes escaping, of the whole text and of parts of it. An escaped text has none of the characters
that have to be replaced but the ampersands of its references. No two texts are escaped to the same one, and a
text stays as it is only if there is nothing in it to replace: one with a reference in it is escaped once more. -/
theorem encode_laws (quoted : Bool) :
    (∀ t : String, decode (encode quoted t).toList = t.toList) ∧
      (∀ t : String, ∀ c ∈ (encode quoted t).toList, c ≠ '<' ∧ c ≠ '>' ∧
        (quoted = true → c ≠ '"' ∧ c ≠ '\n' ∧ c ≠ '\r' ∧ c ≠ '\t')) ∧
      (∀ (t : String) (before after : List Char), (encode quoted t).toList = before ++ '&' :: after →
        ∃ r ∈ references, (reference r.1).toList <+: '&' :: after) ∧
      (∀ a b : String, encode quoted (a ++ b) = encode quoted a ++ encode quoted b) ∧
      Function.Injective (encode quoted) ∧
      (∀ a b : String, ∀ r ∈ references, encode quoted (a ++ reference r.1 ++ b) =
        encode quoted a ++ (reference "amp" ++ r.1 ++ ";") ++ encode quoted b) ∧
      ∀ t : String, encode quoted t = t ↔ ∀ c ∈ t.toList, isReplaced quoted c = false := by
  have htoList : ∀ t : String, (encode quoted t).toList = encodeList quoted t.toList :=
    fun t => String.toList_ofList
  have hdecode : ∀ t : String, decode (encode quoted t).toList = t.toList := by
    intro t
    rw [htoList]
    exact decode_encodeList t.toList
  refine ⟨hdecode, fun t c hc => ?_, fun t before after h => ?_, encode_append, fun a b hab => ?_,
    fun a b r hr => ?_, fun t => ?_⟩
  · rw [htoList] at hc
    have hescaped := (mem_encodeList hc).1
    simp only [isEscaped, Bool.or_eq_false_iff, Bool.and_eq_false_iff, beq_eq_false_iff_ne] at hescaped
    obtain ⟨⟨hlt, hgt⟩, hquoted⟩ := hescaped
    refine ⟨hlt, hgt, fun hq => ?_⟩
    obtain ⟨⟨⟨hquot, hline⟩, hreturn⟩, htab⟩ := hquoted.resolve_left (by simp [hq])
    exact ⟨hquot, hline, hreturn, htab⟩
  · rw [htoList] at h
    exact reference_of_ampersand h
  · have hlists := congrArg (fun t : String => decode t.toList) hab
    rw [hdecode, hdecode] at hlists
    exact String.toList_injective hlists
  · rw [encode_append, encode_append, encode_reference hr]
  · rw [← encodeList_eq_self_iff, ← htoList, String.toList_inj]

/-- What looks like a reference to a reference, with a broken one and a tab behind it. -/
theorem encode_laws_nested :
    ("lt", '<') ∈ references ∧
      encode true ("&amp;" ++ reference "lt" ++ "&am\t") = "&amp;amp;" ++ "&amp;lt;" ++ "&amp;am&#9;" ∧
      decode "&amp;amp;&amp;lt;&amp;am&#9;".toList = "&amp;&lt;&am\t".toList ∧
      encode false "&amp;" ≠ "&amp;" := by
  obtain ⟨hdecode, -, -, -, -, hlook, -⟩ := encode_laws true
  obtain ⟨-, -, -, -, -, -, hself⟩ := encode_laws false
  have hmember : ("lt", '<') ∈ references := by decide
  have htext : encode true "&amp;&lt;&am\t" = "&amp;amp;&amp;lt;&amp;am&#9;" := by decide
  refine ⟨hmember, ?_, ?_, fun heq => ?_⟩
  · rw [hlook _ _ _ hmember]
    decide
  · rw [← htext]
    exact hdecode _
  · have hkept := (hself _).mp heq '&' (by decide)
    cases hkept

end LoadPlan.Markup.Escape
