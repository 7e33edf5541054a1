import LoadPlan.Text.Utf8

/-! Bytes written in base 64, and the 32-bit cyclic redundancy check of bytes with the reflected polynomial
0xEDB88320. -/
namespace LoadPlan.Text

namespace Base64

def digit? (c : Char) : Option Nat :=
  if 'A' ≤ c && c ≤ 'Z' then some (c.toNat - 65)
  else if 'a' ≤ c && c ≤ 'z' then some (c.toNat - 71)
  else if '0' ≤ c && c ≤ '9' then some (c.toNat + 4)
  else if c = '+' then some 62
  else if c = '/' then some 63
  else none

/-- Reads groups of four digits of six bits each. The state is the number of digits in the group, the bits
not yet given out, and the fillers since the last digit. A group of two or three digits that is
filled up ends the text; other characters do not count. -/
def decodeFrom (digits bits fillers : Nat) : List Char → Option Utf8.Bytes
  | [] => if digits = 0 then some [] else none
  | c :: rest =>
    if c = '=' then
      if 2 ≤ digits then
        if 4 ≤ digits + fillers + 1 then some [] else decodeFrom digits bits (fillers + 1) rest
      else decodeFrom digits bits fillers rest
    else match digit? c, digits with
      | none, _ => decodeFrom digits bits fillers rest
      | some v, 0 => decodeFrom 1 v 0 rest
      | some v, 1 => (decodeFrom 2 (v % 16) 0 rest).map (UInt8.ofNat (bits * 4 + v / 16) :: ·)
      | some v, 2 => (decodeFrom 3 (v % 4) 0 rest).map (UInt8.ofNat (bits * 16 + v / 4) :: ·)
      | some v, _ => (decodeFrom 0 0 0 rest).map (UInt8.ofNat (bits * 64 + v) :: ·)

/-- The bytes a text stands for, unless its last group is incomplete. -/
def decode? (cs : List Char) : Option Utf8.Bytes :=
  decodeFrom 0 0 0 cs

end Base64

/-- One bit of the division. -/
def crcShift (r : UInt32) : UInt32 :=
  if r &&& 1 = 1 then (r >>> 1) ^^^ 0xEDB88320 else r >>> 1

def crcByte (r : UInt32) (b : UInt8) : UInt32 :=
  Nat.repeat crcShift 8 (r ^^^ b.toUInt32)

/-- The register starts with all bits set and is inverted at the end. -/
def crc32 (bytes : Utf8.Bytes) : UInt32 :=
  bytes.foldl crcByte 0xFFFFFFFF ^^^ 0xFFFFFFFF

end LoadPlan.Text
