/-! UTF-8, read strictly or with a replacement for each malformed piece. -/
namespace LoadPlan.Text.Utf8

abbrev Bytes := List UInt8

def encode (s : String) : Bytes :=
  s.toList.flatMap String.utf8EncodeChar

/-- The bytes that may follow the first byte of a multi-byte character. The narrower ranges keep
out overlong forms, surrogates and numbers above U+10FFFF. -/
def secondRange (first : Nat) : Nat × Nat :=
  if first = 0xE0 then (0xA0, 0xBF)
  else if first = 0xED then (0x80, 0x9F)
  else if first = 0xF0 then (0x90, 0xBF)
  else if first = 0xF4 then (0x80, 0x8F)
  else (0x80, 0xBF)

def isTail (b : UInt8) : Bool :=
  0x80 ≤ b.toNat && b.toNat ≤ 0xBF

def isSecond (first second : UInt8) : Bool :=
  (secondRange first.toNat).1 ≤ second.toNat && second.toNat ≤ (secondRange first.toNat).2

/-- The character a first byte begins, if it is well formed, and how many more bytes it takes up.
A malformed piece is the longest start of a character. -/
def first (b : UInt8) (rest : Bytes) : Option Char × Nat :=
  let n := b.toNat
  if n < 0x80 then (some (Char.ofNat n), 0)
  else if 0xC2 ≤ n && n ≤ 0xDF then
    match rest with
    | c :: _ => if isTail c then (some (Char.ofNat ((n % 32) * 64 + c.toNat % 64)), 1) else (none, 0)
    | [] => (none, 0)
  else if 0xE0 ≤ n && n ≤ 0xEF then
    match rest with
    | c :: d :: _ =>
      if !isSecond b c then (none, 0)
      else if isTail d then
        (some (Char.ofNat ((n % 16) * 4096 + (c.toNat % 64) * 64 + d.toNat % 64)), 2)
      else (none, 1)
    | [c] => (none, if isSecond b c then 1 else 0)
    | [] => (none, 0)
  else if 0xF0 ≤ n && n ≤ 0xF4 then
    match rest with
    | c :: d :: e :: _ =>
      if !isSecond b c then (none, 0)
      else if !isTail d then (none, 1)
      else if isTail e then
        (some (Char.ofNat ((n % 8) * 262144 + (c.toNat % 64) * 4096 + (d.toNat % 64) * 64
          + e.toNat % 64)), 3)
      else (none, 2)
    | [c, d] => (none, if !isSecond b c then 0 else if isTail d then 2 else 1)
    | [c] => (none, if isSecond b c then 1 else 0)
    | [] => (none, 0)
  else (none, 0)

/-- Read bytes, with U+FFFD for every malformed piece. -/
def decodeLossy : Bytes → List Char
  | [] => []
  | b :: rest =>
    let (c, used) := first b rest
    c.getD '\ufffd' :: decodeLossy (rest.drop used)
termination_by bytes => bytes.length
decreasing_by simp only [List.length_drop, List.length_cons]; omega

/-- Read bytes, or nothing if any piece is malformed. -/
def decode? : Bytes → Option (List Char)
  | [] => some []
  | b :: rest =>
    match first b rest with
    | (some c, used) => (decode? (rest.drop used)).map (c :: ·)
    | (none, _) => none
termination_by bytes => bytes.length
decreasing_by simp only [List.length_drop, List.length_cons]; omega

end LoadPlan.Text.Utf8
