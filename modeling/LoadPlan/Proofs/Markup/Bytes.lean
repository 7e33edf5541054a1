import LoadPlan.Markup.Encoding
import LoadPlan.Proofs.Markup.Marks

/-! The bytes of a written document are read as its characters. -/
namespace LoadPlan.Text.Utf8

theorem toNat_byte {n : Nat} (h : n < 256) : (UInt8.ofNat n).toNat = n := by
  rw [UInt8.toNat_ofNat', Nat.mod_eq_of_lt h]

theorem toNat_tailByte (n : Nat) : (UInt8.ofNat (n % 64 + 128)).toNat = n % 64 + 128 :=
  toNat_byte (by omega)

theorem isTail_tailByte (n : Nat) : isTail (UInt8.ofNat (n % 64 + 128)) = true := by
  rw [isTail, toNat_tailByte]
  simp only [Bool.and_eq_true, decide_eq_true_eq]
  omega

/-- The narrower ranges after some first bytes hold what a character of that length is written as. -/
theorem isSecond_tailByte {b n : Nat} (hb : b < 256) (hlow : b = 0xE0 → 0x20 ≤ n % 64)
    (hgap : b = 0xED → n % 64 < 0x20) (hlow' : b = 0xF0 → 0x10 ≤ n % 64)
    (hhigh : b = 0xF4 → n % 64 < 0x10) :
    isSecond (UInt8.ofNat b) (UInt8.ofNat (n % 64 + 128)) = true := by
  rw [isSecond, toNat_tailByte, toNat_byte hb, secondRange]
  split_ifs <;> simp only [Bool.and_eq_true, decide_eq_true_eq] <;> omega

/-- The bytes of a character are read as that character. -/
theorem first_utf8EncodeChar (c : Char) (more : Bytes) :
    ∃ b tail, String.utf8EncodeChar c = b :: tail ∧ first b (tail ++ more) = (some c, tail.length) := by
  have hc : Char.ofNat c.val.toNat = c := Char.ofNat_toNat c
  have hvalid : c.val.toNat < 0xD800 ∨ 0xDFFF < c.val.toNat ∧ c.val.toNat < 0x110000 := c.valid
  unfold String.utf8EncodeChar
  generalize c.val.toNat = n at *
  -- One case for each number of bytes.
  by_cases h1 : n ≤ 127
  · refine ⟨_, [], if_pos h1, ?_⟩
    have hb : (UInt8.ofNat n).toNat = n := toNat_byte (by omega)
    simp only [first, hb]
    rw [if_pos (by omega), hc]
    rfl
  by_cases h2 : n ≤ 2047
  · refine ⟨_, [_], (if_neg h1).trans (if_pos h2), ?_⟩
    have hlead : n / 64 % 32 + 192 = n / 64 + 192 := by omega
    have hb : (UInt8.ofNat (n / 64 + 192)).toNat = n / 64 + 192 := toNat_byte (by omega)
    have hn : (n / 64 + 192) % 32 * 64 + (n % 64 + 128) % 64 = n := by omega
    simp only [hlead, first, hb, List.cons_append, isTail_tailByte, toNat_tailByte, hn, hc]
    rw [if_neg (by omega), if_pos (by simp; omega)]
    rfl
  by_cases h3 : n ≤ 65535
  · refine ⟨_, [_, _], (if_neg h1).trans ((if_neg h2).trans (if_pos h3)), ?_⟩
    have hlead : n / 4096 % 16 + 224 = n / 4096 + 224 := by omega
    have hb : (UInt8.ofNat (n / 4096 + 224)).toNat = n / 4096 + 224 := toNat_byte (by omega)
    have hs : isSecond (UInt8.ofNat (n / 4096 + 224)) (UInt8.ofNat (n / 64 % 64 + 128)) = true :=
      isSecond_tailByte (by omega) (by omega) (by omega) (by omega) (by omega)
    have hn : (n / 4096 + 224) % 16 * 4096 + (n / 64 % 64 + 128) % 64 * 64 + (n % 64 + 128) % 64 = n := by
      omega
    simp only [hlead, first, hb, List.cons_append, isTail_tailByte, toNat_tailByte, hs, hn, hc]
    rw [if_neg (by omega), if_neg (by simp), if_pos (by simp; omega)]
    rfl
  · refine ⟨_, [_, _, _], (if_neg h1).trans ((if_neg h2).trans (if_neg h3)), ?_⟩
    have hlead : n / 262144 % 8 + 240 = n / 262144 + 240 := by omega
    have hb : (UInt8.ofNat (n / 262144 + 240)).toNat = n / 262144 + 240 := toNat_byte (by omega)
    have hs : isSecond (UInt8.ofNat (n / 262144 + 240)) (UInt8.ofNat (n / 4096 % 64 + 128)) = true :=
      isSecond_tailByte (by omega) (by omega) (by omega) (by omega) (by omega)
    have hn : (n / 262144 + 240) % 8 * 262144 + (n / 4096 % 64 + 128) % 64 * 4096 +
        (n / 64 % 64 + 128) % 64 * 64 + (n % 64 + 128) % 64 = n := by omega
    simp only [hlead, first, hb, List.cons_append, isTail_tailByte, toNat_tailByte, hs, hn, hc]
    rw [if_neg (by omega), if_neg (by simp), if_neg (by simp), if_pos (by simp; omega)]
    rfl

theorem decode?_flatMap (cs : List Char) : decode? (cs.flatMap String.utf8EncodeChar) = some cs := by
  induction cs with
  | nil => rw [List.flatMap_nil, decode?]
  | cons c cs ih =>
    obtain ⟨b, tail, hb, hf⟩ := first_utf8EncodeChar c (cs.flatMap String.utf8EncodeChar)
    rw [List.flatMap_cons, hb, List.cons_append, decode?, hf]
    simp only [List.drop_left, ih]
    rfl

theorem decode?_encode (s : String) : decode? (encode s) = some s.toList :=
  decode?_flatMap s.toList

end LoadPlan.Text.Utf8

namespace LoadPlan.Markup

open LoadPlan.Text.Utf8 (encode decode?_encode)

/-- The declaration that documents begin with is one. -/
theorem Declaration.ofBody_declarationBody :
    ofBody Element.declarationBody = .ok ⟨"1.0", some "UTF-8", false⟩ := by
  have ht : (Instruction.target Element.declarationBody).2 =
      [("version", "1.0"), ("encoding", "UTF-8")].flatMap Tag.written ++ Tag.slash false := by decide
  have hn : ∀ a ∈ [("version", "1.0"), ("encoding", "UTF-8")], isName (Prod.fst a).toList = true := by decide
  rw [ofBody, ht, Tag.attributes?_written hn]
  rfl

namespace Encoding

/-- A document begins with its declaration. -/
theorem document_eq (root : Element) : ∃ cs, root.document.toList = Element.declaration.toList ++ cs := by
  rw [Element.toList_document, List.flatMap_cons, List.append_assoc]
  exact ⟨_, rfl⟩

/-- What follows the declaration is not looked at for the encoding. -/
theorem declared?_append (cs : List Char) :
    declared? (Element.declaration.toList ++ cs) = some "UTF-8" := by
  have hd : Element.declaration.toList ++ cs =
      '<' :: '?' :: (Element.declarationBody ++ '?' :: '>' :: cs) := rfl
  have hq : '?' ∉ Element.declarationBody := by decide
  have hcut : cutAfter "?>".toList (Element.declarationBody ++ '?' :: '>' :: cs) =
      some (Element.declarationBody, cs) := Mark.cutAfter_pair hq cs
  have hhead : Declaration.isHead Element.declarationBody = true := by decide
  rw [hd, declared?, hcut]
  simp only [hhead, if_true, Declaration.ofBody_declarationBody]

theorem form_document (root : Element) : form (encode root.document) = (.bare, encode root.document) := by
  obtain ⟨cs, hcs⟩ := document_eq root
  rw [encode, hcs, List.flatMap_append]
  rfl

theorem declared?_document (root : Element) : declared? (latin1 (encode root.document)) = some "UTF-8" := by
  obtain ⟨cs, hcs⟩ := document_eq root
  have hl : latin1 (encode Element.declaration) = Element.declaration.toList := by decide
  rw [encode, hcs, List.flatMap_append, latin1, List.map_append]
  change declared? (latin1 (encode Element.declaration) ++ _) = _
  rw [hl, declared?_append]

theorem decode?_document (strict : Bool) (root : Element) :
    decode? strict (encode root.document) = some root.document.toList := by
  rw [decode?, form_document]
  change bytewise? strict (encode root.document) = _
  rw [bytewise?, declared?_document]
  exact decode?_encode root.document

theorem unknown?_document (root : Element) : unknown? (encode root.document) = none := by
  have hknown : isBuiltin "UTF-8" = true := by decide
  simp only [unknown?, form_document, declared?_document, Option.filter_some, hknown, Bool.not_true,
    Bool.false_and, Bool.false_eq_true, if_false]

end Encoding

end LoadPlan.Markup
