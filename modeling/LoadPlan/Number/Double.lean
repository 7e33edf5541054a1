/-! Binary numbers of double precision, rounded to the nearest with ties to even. -/
namespace LoadPlan.Number

/-- A finite number is its significand times a power of two, with the sign apart so that zero has one. -/
inductive Double
  | nan
  | infinite (negative : Bool)
  | finite (negative : Bool) (significand : Nat) (exponent : Int)
  deriving DecidableEq, Repr, Inhabited

namespace Double

/-- The binary digits of a significand. -/
def precision : Nat := 53

/-- Significands lie below this. -/
def significandLimit : Nat := Nat.pow 2 precision

def leastExponent : Int := -1074

def greatestExponent : Int := 971

def zero : Double := finite false 0 leastExponent

/-- The integer nearest to a rational, the even one of two equally near. -/
def nearestEven (x : Rat) : Int :=
  let k := x.floor
  if x - k < 1 / 2 then k
  else if 1 / 2 < x - k then k + 1
  else k + k % 2

/-- The exponent at which a positive rational has a significand of full length, or the least one. -/
def exponentOf (x : Rat) : Int :=
  let e := max ((x.num.toNat.log2 : Int) - x.den.log2 - precision) leastExponent
  if x < significandLimit * (2 : Rat) ^ e then e else e + 1

/-- The number of a given sign nearest to a magnitude; one too large becomes infinite. -/
def ofMagnitude (negative : Bool) (x : Rat) : Double :=
  if x ≤ 0 then finite negative 0 leastExponent
  else
    let e := exponentOf x
    let m := (nearestEven (x / (2 : Rat) ^ e)).toNat
    let (m, e) := if m = significandLimit then (significandLimit / 2, e + 1) else (m, e)
    if greatestExponent < e then infinite negative else finite negative m e

/-- The number nearest to a rational. -/
def ofRat (x : Rat) : Double :=
  if x < 0 then ofMagnitude true (-x) else ofMagnitude false x

/-- The number nearest to an integer, if one is in range. -/
def ofInt? (n : Int) : Option Double :=
  match ofRat n with
  | .infinite _ => none
  | d => some d

/-- The value of a finite number without its sign. -/
def magnitude (m : Nat) (e : Int) : Rat :=
  m * (2 : Rat) ^ e

def value? : Double → Option Rat
  | .finite true m e => some (-magnitude m e)
  | .finite false m e => some (magnitude m e)
  | _ => none

def isFinite : Double → Bool
  | .finite .. => true
  | _ => false

/-- The integer part of a finite number, toward zero. -/
def integerPart? : Double → Option Int
  | .finite true m e => some (-(magnitude m e).floor)
  | .finite false m e => some (magnitude m e).floor
  | _ => none

def negate : Double → Double
  | .nan => .nan
  | .infinite s => .infinite !s
  | .finite s m e => .finite (!s) m e

/-- The rounded sum. -/
def add : Double → Double → Double
  | .nan, _ => .nan
  | _, .nan => .nan
  | .infinite s, .infinite t => if s = t then .infinite s else .nan
  | .infinite s, .finite .. => .infinite s
  | .finite .., .infinite t => .infinite t
  | x@(.finite s m _), y@(.finite t n _) =>
    if m = 0 && n = 0 then .finite (s && t) 0 leastExponent
    else match x.value?, y.value? with
      | some a, some b => ofRat (a + b)
      | _, _ => .nan

/-- The rounded product. -/
def mul : Double → Double → Double
  | .nan, _ => .nan
  | _, .nan => .nan
  | .infinite s, .infinite t => .infinite (s != t)
  | .infinite s, .finite t n _ => if n = 0 then .nan else .infinite (s != t)
  | .finite s m _, .infinite t => if m = 0 then .nan else .infinite (s != t)
  | .finite s m e, .finite t n f => ofMagnitude (s != t) (magnitude m e * magnitude n f)

end Double

end LoadPlan.Number
