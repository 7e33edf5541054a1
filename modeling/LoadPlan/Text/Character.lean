/-! Code points and classes of characters: blanks, small letters, and the digits of every script. -/
namespace LoadPlan.Text

/-- The character of a number has that number, if there is one. -/
theorem toNat_ofNat {n : Nat} (h : n.isValidChar) : (Char.ofNat n).toNat = n := by
  rw [Char.ofNat, dif_pos h]
  rfl

/-- A code point: a character, or half of a surrogate pair, which is none. -/
inductive Point
  | character (c : Char)
  | half (n : Nat)
  deriving DecidableEq, Repr

namespace Point

/-- The code point of a number. -/
def ofNat (n : Nat) : Point :=
  if 0xD800 ≤ n && n ≤ 0xDFFF then .half n else .character (Char.ofNat n)

def isHalf : Point → Bool
  | .half _ => true
  | .character _ => false

/-- What stands for a code point in a text. No document holds what stands for a half. -/
def standIn : Point → Char
  | .character c => c
  | .half _ => '\uffff'

end Point

/-- White space of any script, with the ASCII separators U+001C to U+001F and the next-line control. -/
def isBlank (c : Char) : Bool :=
  let n := c.toNat
  (0x09 ≤ n && n ≤ 0x0D) || (0x1C ≤ n && n ≤ 0x20) || n == 0x85 || n == 0xA0 || n == 0x1680 ||
    (0x2000 ≤ n && n ≤ 0x200A) || n == 0x2028 || n == 0x2029 || n == 0x202F || n == 0x205F ||
    n == 0x3000

/-- Beside A to Z only the dotted capital I (whose lower case is an i with a combining dot) and
the Kelvin sign have a letter a to z in their lower case, so comparing with a word in these letters
needs no other case pair. -/
def lowerChar (c : Char) : List Char :=
  if c = 'İ' then ['i', '\u0307']
  else if c = '\u212a' then ['k']
  else [c.toLower]

def lower (s : String) : String :=
  String.ofList (s.toList.flatMap lowerChar)

/-- The zeros of the scripts with decimal digits; the nine digits after each follow it in order. -/
def digitZeros : List Nat :=
  [0x30, 0x660, 0x6F0, 0x7C0, 0x966, 0x9E6, 0xA66, 0xAE6, 0xB66, 0xBE6, 0xC66, 0xCE6, 0xD66, 0xDE6,
   0xE50, 0xED0, 0xF20, 0x1040, 0x1090, 0x17E0, 0x1810, 0x1946, 0x19D0, 0x1A80, 0x1A90, 0x1B50,
   0x1BB0, 0x1C40, 0x1C50, 0xA620, 0xA8D0, 0xA900, 0xA9D0, 0xA9F0, 0xAA50, 0xABF0, 0xFF10, 0x104A0,
   0x10D30, 0x11066, 0x110F0, 0x11136, 0x111D0, 0x112F0, 0x11450, 0x114D0, 0x11650, 0x116C0,
   0x11730, 0x118E0, 0x11950, 0x11C50, 0x11D50, 0x11DA0, 0x16A60, 0x16AC0, 0x16B50, 0x1D7CE,
   0x1D7D8, 0x1D7E2, 0x1D7EC, 0x1D7F6, 0x1E140, 0x1E2F0, 0x1E950, 0x1FBF0]

/-- The value of a decimal digit of any script. -/
def digit? (c : Char) : Option Nat :=
  (digitZeros.find? fun z => z ≤ c.toNat && c.toNat ≤ z + 9).map (c.toNat - ·)

def isDigit (c : Char) : Bool :=
  (digit? c).isSome

/-- The value of a digit in base sixteen; only those of ASCII count. -/
def hexDigit? (c : Char) : Option Nat :=
  if c.isDigit then some (c.toNat - 0x30)
  else if 'a' ≤ c && c ≤ 'f' then some (c.toNat - 0x57)
  else if 'A' ≤ c && c ≤ 'F' then some (c.toNat - 0x37)
  else none

def isHexDigit (c : Char) : Bool :=
  (hexDigit? c).isSome

/-- The number written by digits in a base, the most significant first. -/
def ofDigits (base : Nat) (ds : List Nat) : Nat :=
  ds.foldl (fun n d => base * n + d) 0

end LoadPlan.Text
