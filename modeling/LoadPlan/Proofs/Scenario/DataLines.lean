import LoadPlan.Proofs.Markup.Bytes
import LoadPlan.Proofs.Markup.Escaping
import LoadPlan.Scenario.DataFile

/-! The lines of a data file that count: what is read of bytes that are no text, how often the lines of two files
together count, and that it does not matter how lines end. -/
namespace LoadPlan.Text.Utf8

theorem isTail_of_lt {x : UInt8} (hx : x.toNat < 0x80) : isTail x = false := by
  unfold isTail
  simp only [Bool.and_eq_false_iff, decide_eq_false_iff_not]
  omega

theorem isSecond_of_lt {x : UInt8} (hx : x.toNat < 0x80) (b : UInt8) : isSecond b x = false := by
  unfold isSecond secondRange
  split_ifs <;> simp only [Bool.and_eq_false_iff, decide_eq_false_iff_not] <;> omega

theorem isTail_bounds {b : UInt8} (h : isTail b = true) : 0x80 ≤ b.toNat ∧ b.toNat ≤ 0xBF := by
  simpa [isTail] using h

theorem isSecond_bounds {b c : UInt8} (h : isSecond b c = true) :
    0x80 ≤ c.toNat ∧ c.toNat ≤ 0xBF ∧ (b.toNat = 0xE0 → 0xA0 ≤ c.toNat) ∧ (b.toNat = 0xED → c.toNat ≤ 0x9F) ∧
      (b.toNat = 0xF0 → 0x90 ≤ c.toNat) ∧ (b.toNat = 0xF4 → c.toNat ≤ 0x8F) := by
  unfold isSecond secondRange at h
  split_ifs at h <;> simp only [Bool.and_eq_true, decide_eq_true_eq] at h <;> omega

theorem first_of_lt {x : UInt8} (hx : x.toNat < 0x80) (rest : Bytes) :
    first x rest = (some (Char.ofNat x.toNat), 0) := by
  unfold first
  exact if_pos hx

theorem first_le (b : UInt8) (rest : Bytes) : (first b rest).2 ≤ rest.length := by
  unfold first
  grind

/-- A byte that is a character of its own ends the one before it, which may have been cut off there. -/
theorem first_append {x : UInt8} (hx : x.toNat < 0x80) (b : UInt8) (rest more : Bytes) :
    first b (rest ++ x :: more) = first b rest := by
  have ht := isTail_of_lt hx
  have hs := isSecond_of_lt hx
  match rest with
  | [] => cases more <;> unfold first <;> grind
  | [c] => cases more <;> unfold first <;> grind
  | [c, d] => unfold first; grind
  | c :: d :: e :: rest => rfl

theorem decodeLossy_append {x : UInt8} (hx : x.toNat < 0x80) (bytes more : Bytes) :
    decodeLossy (bytes ++ x :: more) = decodeLossy bytes ++ Char.ofNat x.toNat :: decodeLossy more := by
  fun_induction decodeLossy bytes with
  | case1 =>
    rw [List.nil_append, decodeLossy, first_of_lt hx]
    rfl
  | case2 b rest c used hf ih =>
    have hle : used ≤ rest.length := by simpa [hf] using first_le b rest
    rw [List.cons_append, decodeLossy, first_append hx, hf]
    simp only [List.drop_append_of_le_length hle, ih, List.cons_append]

theorem ofNat_eq_byte {n : Nat} {b : UInt8} (h : n = b.toNat) : UInt8.ofNat n = b := by
  rw [h, UInt8.ofNat_toNat]

theorem utf8EncodeChar_ofNat {n : Nat} (h : n < 0xD800 ∨ 0xDFFF < n ∧ n < 0x110000) :
    String.utf8EncodeChar (Char.ofNat n) =
      if n ≤ 0x7F then [.ofNat n]
      else if n ≤ 0x7FF then [.ofNat (n / 64 % 32 + 192), .ofNat (n % 64 + 128)]
      else if n ≤ 0xFFFF then
        [.ofNat (n / 4096 % 16 + 224), .ofNat (n / 64 % 64 + 128), .ofNat (n % 64 + 128)]
      else
        [.ofNat (n / 262144 % 8 + 240), .ofNat (n / 4096 % 64 + 128), .ofNat (n / 64 % 64 + 128),
          .ofNat (n % 64 + 128)] := by
  have hn : (Char.ofNat n).val.toNat = n := toNat_ofNat h
  rw [String.utf8EncodeChar, hn]

/-- What is read as a character is what that character is written as. -/
theorem utf8EncodeChar_of_first {b : UInt8} {rest : Bytes} {c : Char} {used : Nat}
    (h : first b rest = (some c, used)) : String.utf8EncodeChar c = b :: rest.take used := by
  have hb := b.toNat_lt
  unfold first at h
  simp only [Bool.and_eq_true, decide_eq_true_eq] at h
  -- One case for each number of bytes.
  split at h
  · cases h
    rw [utf8EncodeChar_ofNat (by omega), if_pos (by omega), ofNat_eq_byte rfl, List.take_zero]
  split at h
  · split at h
    · next d more =>
      split at h <;> cases h
      next ht =>
      obtain ⟨hl, hu⟩ := isTail_bounds ht
      rw [utf8EncodeChar_ofNat (by omega), if_neg (by omega), if_pos (by omega),
        ofNat_eq_byte (b := b) (by omega), ofNat_eq_byte (b := d) (by omega)]
      rfl
    · cases h
  split at h
  · split at h
    · next d e more =>
      split at h
      · cases h
      split at h <;> cases h
      next hs ht =>
      obtain ⟨hl, hu, hlow, hgap, -⟩ := isSecond_bounds (by simpa using hs)
      obtain ⟨hl', hu'⟩ := isTail_bounds ht
      rw [utf8EncodeChar_ofNat (by omega), if_neg (by omega), if_neg (by omega), if_pos (by omega),
        ofNat_eq_byte (b := b) (by omega), ofNat_eq_byte (b := d) (by omega),
        ofNat_eq_byte (b := e) (by omega)]
      rfl
    · cases h
    · cases h
  split at h
  · split at h
    · next d e f more =>
      split at h
      · cases h
      split at h
      · cases h
      split at h <;> cases h
      next hs ht hf =>
      obtain ⟨hl, hu, -, -, hlow, hhigh⟩ := isSecond_bounds (by simpa using hs)
      obtain ⟨hl', hu'⟩ := isTail_bounds (b := e) (by simpa using ht)
      obtain ⟨hl'', hu''⟩ := isTail_bounds hf
      rw [utf8EncodeChar_ofNat (by omega), if_neg (by omega), if_neg (by omega), if_neg (by omega),
        ofNat_eq_byte (b := b) (by omega), ofNat_eq_byte (b := d) (by omega),
        ofNat_eq_byte (b := e) (by omega), ofNat_eq_byte (b := f) (by omega)]
      rfl
    · cases h
    · cases h
    · cases h
  · cases h

theorem flatMap_of_decode? {bytes : Bytes} {cs : List Char} (h : decode? bytes = some cs) :
    cs.flatMap String.utf8EncodeChar = bytes := by
  fun_induction decode? bytes generalizing cs with
  | case1 =>
    cases h
    rfl
  | case2 b rest c used hf ih =>
    obtain ⟨cs, hcs, rfl⟩ := Option.map_eq_some_iff.mp h
    rw [List.flatMap_cons, ih hcs, utf8EncodeChar_of_first hf, List.cons_append, List.take_append_drop]
  | case3 => cases h

theorem decodeLossy_of_decode? {bytes : Bytes} {cs : List Char} (h : decode? bytes = some cs) :
    decodeLossy bytes = cs := by
  fun_induction decode? bytes generalizing cs with
  | case1 =>
    cases h
    rw [decodeLossy]
  | case2 b rest c used hf ih =>
    obtain ⟨cs, hcs, rfl⟩ := Option.map_eq_some_iff.mp h
    rw [decodeLossy, hf]
    simp only [ih hcs, Option.getD_some]
  | case3 => cases h

theorem mem_decodeLossy_of_malformed {bytes : Bytes} (h : decode? bytes = none) :
    '\ufffd' ∈ decodeLossy bytes := by
  fun_induction decode? bytes with
  | case1 => cases h
  | case2 b rest c used hf ih =>
    rw [decodeLossy, hf]
    exact List.mem_cons_of_mem _ (ih (Option.map_eq_none_iff.mp h))
  | case3 b rest used hf =>
    rw [decodeLossy, hf]
    exact List.mem_cons_self

/-- A character of one byte is read only where that byte stands. -/
theorem mem_of_mem_decodeLossy {x : UInt8} (hx : x.toNat < 0x80) {bytes : Bytes}
    (h : Char.ofNat x.toNat ∈ decodeLossy bytes) : x ∈ bytes := by
  fun_induction decodeLossy bytes with
  | case1 => cases h
  | case2 b rest c used hf ih =>
    rcases List.mem_cons.mp h with hc | hmem
    · cases c with
      | none =>
        have hn := congrArg Char.toNat hc
        rw [toNat_ofNat (Or.inl (by omega))] at hn
        simp only [Option.getD_none] at hn
        have hn' : x.toNat = 0xFFFD := hn
        omega
      | some c =>
        have hw := utf8EncodeChar_of_first hf
        rw [← show Char.ofNat x.toNat = c from hc, utf8EncodeChar_ofNat (.inl (by omega)), if_pos (by omega),
          UInt8.ofNat_toNat] at hw
        rw [(List.cons.inj hw).1]
        exact List.mem_cons_self
    · exact List.mem_cons_of_mem _ (List.mem_of_mem_drop (ih hmem))

end LoadPlan.Text.Utf8

namespace LoadPlan.Scenario.DataFile

open LoadPlan.Text
open Utf8 (Bytes)

def isLineEnd (c : Char) : Bool :=
  c = '\n' || c = '\r'

/-- The lines that count, character by character; `held` says whether the line being read counts already. -/
def tally (held : Bool) : List Char → Nat
  | [] => held.toNat
  | c :: rest => if isLineEnd c then held.toNat + tally false rest else tally (held || !isBlank c) rest

/-- Between a return and the line feed of the same line end there is nothing that counts. -/
theorem tally_unifyLineEnds (held : Bool) (cs : List Char) :
    tally held (unifyLineEnds cs) = tally held cs := by
  fun_induction unifyLineEnds cs generalizing held with
  | case1 => rfl
  | case2 rest ih => simp [tally, isLineEnd, ih]
  | case3 rest hrest ih => simp [tally, isLineEnd, ih]
  | case4 c rest _ hc ih => simp [tally, ih]

/-- The first line counts if what is left of it does, or what was read of it. -/
theorem tally_splitLines (cs : List Char) (hcs : '\r' ∉ cs) :
    ∃ line lines, splitLines cs = line :: lines ∧ ∀ held, tally held cs =
      (held || !line.all isBlank).toNat + lines.countP fun l => !l.all isBlank := by
  induction cs with
  | nil => exact ⟨[], [], rfl, fun held => by simp [tally]⟩
  | cons c cs ih =>
    obtain ⟨hc, hcs⟩ := List.ne_and_not_mem_of_not_mem_cons hcs
    obtain ⟨line, lines, hsplit, ih⟩ := ih hcs
    by_cases hn : c = '\n'
    · refine ⟨[], line :: lines, by rw [splitLines, if_pos hn, hsplit], fun held => ?_⟩
      rw [tally, if_pos (by simp [isLineEnd, hn]), ih, List.countP_cons]
      cases line.all isBlank <;> simp [Nat.add_comm]
    · refine ⟨c :: line, lines, by rw [splitLines, if_neg hn, hsplit], fun held => ?_⟩
      rw [tally, if_neg (by simp [isLineEnd, hn, Ne.symm hc]), ih, List.all_cons, Bool.not_and, Bool.or_assoc]

theorem lineCount_eq_tally (bytes : Bytes) : lineCount bytes = tally false (Utf8.decodeLossy bytes) := by
  obtain ⟨line, lines, hsplit, htally⟩ :=
    tally_splitLines (unifyLineEnds (Utf8.decodeLossy bytes)) (not_mem_unifyLineEnds _)
  rw [← tally_unifyLineEnds, htally, lineCount, Text.lines, hsplit, List.countP_cons, Bool.false_or]
  cases line.all isBlank <;> simp [Nat.add_comm]

theorem tally_append {e : Char} (he : isLineEnd e = true) (held : Bool) (cs more : List Char) :
    tally held (cs ++ e :: more) = tally held cs + tally false more := by
  induction cs generalizing held with
  | nil =>
    rw [List.nil_append]
    exact if_pos he
  | cons c cs ih =>
    rw [List.cons_append, tally, tally]
    split
    · rw [ih, Nat.add_assoc]
    · rw [ih]

theorem tally_of_line {cs : List Char} (h : ∀ c ∈ cs, isLineEnd c = false) (held : Bool) :
    tally held cs = (held || cs.any fun c => !isBlank c).toNat := by
  induction cs generalizing held with
  | nil => simp [tally]
  | cons c cs ih =>
    obtain ⟨hc, hcs⟩ := List.forall_mem_cons.mp h
    rw [tally, hc, if_neg Bool.false_ne_true, ih hcs, List.any_cons, Bool.or_assoc]

/-- A byte that ends a line, whatever stands before and behind it. -/
theorem lineCount_append {x : UInt8} (hx : x = 0x0A ∨ x = 0x0D) (a b : Bytes) :
    lineCount (a ++ x :: b) = lineCount a + lineCount b := by
  have hlt : x.toNat < 0x80 := by rcases hx with rfl | rfl <;> decide
  have hend : isLineEnd (Char.ofNat x.toNat) = true := by rcases hx with rfl | rfl <;> decide
  rw [lineCount_eq_tally, lineCount_eq_tally, lineCount_eq_tally, Utf8.decodeLossy_append hlt, tally_append hend]

theorem lineCount_nil : lineCount [] = 0 := by
  rw [lineCount_eq_tally, Utf8.decodeLossy]
  rfl

/-- The bytes with another line end in the stead of each line feed. -/
def withLineEnds (ending bytes : Bytes) : Bytes :=
  bytes.flatMap fun b => if b = 0x0A then ending else [b]

theorem withLineEnds_of_not_mem (ending : Bytes) {bytes : Bytes} (h : (0x0A : UInt8) ∉ bytes) :
    withLineEnds ending bytes = bytes := by
  have hone : ∀ b ∈ bytes, (if b = 0x0A then ending else [b]) = [b] := by
    intro b hb
    rw [if_neg]
    rintro rfl
    exact h hb
  rw [withLineEnds, List.flatMap_congr hone, List.flatMap_singleton']

theorem withLineEnds_append (ending line rest : Bytes) :
    withLineEnds ending (line ++ 0x0A :: rest) =
      withLineEnds ending line ++ (ending ++ withLineEnds ending rest) := by
  rw [withLineEnds, List.flatMap_append, List.flatMap_cons, if_pos rfl]
  rfl

/-- The count depends on a line end only through what it separates. -/
theorem lineCount_withLineEnds {ending : Bytes}
    (hending : ∀ a b, lineCount (a ++ (ending ++ b)) = lineCount a + lineCount b) (bytes : Bytes) :
    lineCount (withLineEnds ending bytes) = lineCount bytes := by
  -- The induction is on the length: one line and its end are taken off at a time.
  induction h : bytes.length using Nat.strongRecOn generalizing bytes with
  | ind n ih =>
    subst h
    by_cases hmem : (0x0A : UInt8) ∈ bytes
    · obtain ⟨line, rest, rfl, hline⟩ := List.eq_append_cons_of_mem hmem
      have hshort : rest.length < (line ++ 0x0A :: rest).length := by
        simp only [List.length_append, List.length_cons]
        omega
      rw [withLineEnds_append, withLineEnds_of_not_mem ending hline, hending, ih _ hshort rest rfl,
        lineCount_append (.inl rfl)]
    · rw [withLineEnds_of_not_mem ending hmem]

theorem lineCount_of_line {line : Bytes} (h : ∀ b ∈ line, b ≠ 0x0A ∧ b ≠ 0x0D) :
    lineCount line = ((Utf8.decodeLossy line).any fun c => !isBlank c).toNat := by
  have hline : ∀ c ∈ Utf8.decodeLossy line, isLineEnd c = false := by
    intro c hc
    by_contra hend
    simp only [isLineEnd, Bool.not_eq_false, Bool.or_eq_true, decide_eq_true_eq] at hend
    rcases hend with rfl | rfl
    · exact (h 0x0A (Utf8.mem_of_mem_decodeLossy (by decide) hc)).1 rfl
    · exact (h 0x0D (Utf8.mem_of_mem_decodeLossy (by decide) hc)).2 rfl
  rw [lineCount_eq_tally, tally_of_line hline, Bool.false_or]

/-- A malformed piece is read as a character that is not blank. -/
theorem exists_not_isBlank_iff (bytes : Bytes) :
    (∃ c ∈ Utf8.decodeLossy bytes, isBlank c = false) ↔
      ∀ s, Utf8.encode s = bytes → ∃ c ∈ s.toList, isBlank c = false := by
  constructor
  · rintro ⟨c, hc, hb⟩ s rfl
    rw [Utf8.decodeLossy_of_decode? (Utf8.decode?_encode s)] at hc
    exact ⟨c, hc, hb⟩
  · intro h
    cases hd : Utf8.decode? bytes with
    | none => exact ⟨_, Utf8.mem_decodeLossy_of_malformed hd, by decide⟩
    | some cs =>
      have hbytes : Utf8.encode (String.ofList cs) = bytes := by
        rw [Utf8.encode, String.toList_ofList, Utf8.flatMap_of_decode? hd]
      have hex := h _ hbytes
      rwa [String.toList_ofList, ← Utf8.decodeLossy_of_decode? hd] at hex

/-- The lines of two files with a line feed between them count as those of both. Line feeds may be returns, or
both together. A line by itself counts unless it is the encoding of blanks; so it does if it is malformed. -/
theorem lineCount_laws :
    (∀ a b : Bytes, lineCount (a ++ 0x0A :: b) = lineCount a + lineCount b) ∧
    (∀ bytes : Bytes, lineCount (withLineEnds [0x0D, 0x0A] bytes) = lineCount bytes ∧
      lineCount (withLineEnds [0x0D] bytes) = lineCount bytes) ∧
    ∀ line : Bytes, (∀ b ∈ line, b ≠ 0x0A ∧ b ≠ 0x0D) →
      lineCount line ≤ 1 ∧
      (lineCount line = 1 ↔ ∃ c ∈ Utf8.decodeLossy line, isBlank c = false) ∧
      (lineCount line = 1 ↔ ∀ s, Utf8.encode s = line → ∃ c ∈ s.toList, isBlank c = false) := by
  refine ⟨lineCount_append (.inl rfl), fun bytes => ⟨?_, ?_⟩, fun line hline => ?_⟩
  · refine lineCount_withLineEnds (fun a b => ?_) bytes
    have hfeed : lineCount (0x0A :: b) = lineCount b := by
      simpa [lineCount_nil] using lineCount_append (.inl rfl) [] b
    exact (lineCount_append (.inr rfl) a _).trans (congrArg _ hfeed)
  · exact lineCount_withLineEnds (lineCount_append (.inr rfl)) bytes
  · have hone : lineCount line = 1 ↔ ∃ c ∈ Utf8.decodeLossy line, isBlank c = false := by
      simp [lineCount_of_line hline]
    refine ⟨?_, hone, hone.trans (exists_not_isBlank_iff line)⟩
    rw [lineCount_of_line hline]
    exact Bool.toNat_le _

/-- Two parts of a character on both sides of a line feed count for themselves. A start of a character without the
rest of it makes a line count, a line separator does not. -/
theorem lineCount_laws_cut :
    lineCount ([0x61, 0xE2, 0x82] ++ 0x0A :: [0xAC, 0x0D]) = 2 ∧
      (∀ b ∈ ([0xC2] : Bytes), b ≠ 0x0A ∧ b ≠ 0x0D) ∧ lineCount [0xC2] = 1 ∧
      (∀ b ∈ ([0xE2, 0x80, 0xA8] : Bytes), b ≠ 0x0A ∧ b ≠ 0x0D) ∧ lineCount [0xE2, 0x80, 0xA8] ≠ 1 := by
  obtain ⟨hjoined, -, hline⟩ := lineCount_laws
  have hstart : ∀ b ∈ ([0xC2] : Bytes), b ≠ 0x0A ∧ b ≠ 0x0D := by simp
  have hseparator : ∀ b ∈ ([0xE2, 0x80, 0xA8] : Bytes), b ≠ 0x0A ∧ b ≠ 0x0D := by simp
  refine ⟨?_, hstart, ?_, hseparator, fun hone => ?_⟩
  · rw [hjoined]
    decide +kernel
  · have hread : Utf8.decodeLossy [0xC2] = ['\ufffd'] := by decide +kernel
    refine (hline _ hstart).2.1.mpr ⟨'\ufffd', ?_, by decide⟩
    rw [hread]
    exact List.mem_singleton.mpr rfl
  · obtain ⟨c, hc, hb⟩ := (hline _ hseparator).2.2.mp hone "\u2028" (by decide)
    rw [List.mem_singleton.mp hc] at hb
    exact absurd hb (by decide)

end LoadPlan.Scenario.DataFile
