import LoadPlan.Number.Integer

/-! The shortest decimal text of a double: the fewest digits that read back, the nearest of those. -/
namespace LoadPlan.Number

namespace Shortest

/-- The rationals that round to a finite number lie between two bounds, which belong to them if the
significand is even. Below a power of two the lower neighbour is at half the distance. -/
structure Interval where
  low : Rat
  high : Rat
  closed : Bool

def interval (m : Nat) (e : Int) : Interval :=
  let unit := (2 : Rat) ^ e
  let below := if m = Double.significandLimit / 2 && Double.leastExponent < e then unit / 4 else unit / 2
  ⟨m * unit - below, m * unit + unit / 2, m % 2 = 0⟩

def Interval.contains (i : Interval) (x : Rat) : Bool :=
  if i.closed then i.low ≤ x && x ≤ i.high else i.low < x && x < i.high

/-- The power of ten of the first digit of a positive rational. -/
def leadingPower (x : Rat) : Int :=
  let guess := ((x.num.toNat.log2 : Int) - x.den.log2) * 30103 / 100000 - 2
  guess + (([1, 2, 3, 4] : List Int).filter fun k => (10 : Rat) ^ (guess + k) ≤ x).length

/-- The nearer of a number's two neighbours on the grid of multiples of `10 ^ k`, among those in
the interval; of two equally near ones the even. -/
def onGrid? (i : Interval) (x : Rat) (k : Int) : Option Nat :=
  let grid := (10 : Rat) ^ k
  let lower := (x / grid).floor.toNat
  let upper := lower + 1
  match i.contains (lower * grid) && 0 < lower, i.contains (upper * grid) with
  | true, true =>
    let a := x - lower * grid
    let b := upper * grid - x
    some (if a < b then lower else if b < a then upper else lower + lower % 2)
  | true, false => some lower
  | false, true => some upper
  | false, false => none

/-- The first grid with a point in the interval, from coarse to fine. -/
def search (i : Interval) (x : Rat) (top : Int) : Nat → Nat → Nat × Int
  | 0, n => ((x / (10 : Rat) ^ (top - n)).floor.toNat, top - n)
  | steps + 1, n =>
    match onGrid? i x (top - n) with
    | some d => (d, top - n)
    | none => search i x top steps (n + 1)

/-- Digits and a power of ten for a positive number. Seventeen digits always suffice. -/
def decimal (m : Nat) (e : Int) : Nat × Int :=
  let x := Double.magnitude m e
  search (interval m e) x (leadingPower x) 17 0

/-- Drop the zeros at the end of a digit string, counting them. -/
def dropZeros (d : Nat) (k : Int) : Nat → Nat × Int
  | 0 => (d, k)
  | steps + 1 => if d % 10 = 0 then dropZeros (d / 10) (k + 1) steps else (d, k)

/-- Numbers from `10 ^ -4` up to but not including `10 ^ 16` are written with a point, the others
with a power of ten of at least two digits. -/
def layout (digits : List Char) (k : Int) : String :=
  let top := k + digits.length - 1
  if top < -4 || 16 ≤ top then
    let point := match digits with
      | [] => []
      | [d] => [d]
      | d :: ds => d :: '.' :: ds
    let power := Nat.repr top.natAbs
    String.ofList point ++ "e" ++ (if top < 0 then "-" else "+")
      ++ (if power.length < 2 then "0" ++ power else power)
  else if top < 0 then
    "0." ++ String.ofList (List.replicate (-top - 1).toNat '0' ++ digits)
  else if 0 ≤ k then
    String.ofList (digits ++ List.replicate k.toNat '0') ++ ".0"
  else
    let whole := (top + 1).toNat
    String.ofList (digits.take whole) ++ "." ++ String.ofList (digits.drop whole)

end Shortest

/-- The text of a double. -/
def Double.text : Double → String
  | .nan => "nan"
  | .infinite s => if s then "-inf" else "inf"
  | .finite s m e =>
    let unsigned :=
      if m = 0 then "0.0"
      else
        let (d, k) := Shortest.decimal m e
        let (d, k) := Shortest.dropZeros d k 20
        Shortest.layout (Nat.repr d).toList k
    if s then "-" ++ unsigned else unsigned

end LoadPlan.Number
