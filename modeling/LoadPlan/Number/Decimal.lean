import LoadPlan.Number.Double
import LoadPlan.Text.Line

/-! Decimal numerals with a point and a power of ten, read from the start of a text. -/
namespace LoadPlan.Number

open LoadPlan.Text

/-- A numeral: its digits as one integer, times a power of ten. -/
structure Decimal where
  negative : Bool
  digits : Nat
  exponent : Int
  deriving DecidableEq, Repr

namespace Decimal

/-- The double nearest to a numeral. Powers of ten far beyond the range of a double are decided
without being computed. -/
def toDouble (d : Decimal) : Double :=
  if d.digits = 0 then .ofMagnitude d.negative 0
  else if 400 < d.exponent then .infinite d.negative
  else if (d.digits.log2 : Int) + 1 + 3 * d.exponent < -1100 then .ofMagnitude d.negative 0
  else .ofMagnitude d.negative (d.digits * (10 : Rat) ^ d.exponent)

/-- A sign, if there is one, and what follows it. -/
def readSign : List Char → Bool × List Char
  | '-' :: rest => (true, rest)
  | '+' :: rest => (false, rest)
  | rest => (false, rest)

/-- The values of the leading digits, and what follows them. -/
def readDigits : List Char → List Nat × List Char
  | [] => ([], [])
  | c :: rest =>
    match digit? c with
    | some d => let (ds, after) := readDigits rest; (d :: ds, after)
    | none => ([], c :: rest)

/-- The digits before and after a point, at least one of them, and what follows. -/
def readSignificand? (cs : List Char) : Option (List Nat × List Nat × List Char) :=
  match readDigits cs with
  | ([], '.' :: rest) =>
    match readDigits rest with
    | ([], _) => none
    | (fraction, after) => some ([], fraction, after)
  | ([], _) => none
  | (whole, '.' :: rest) => let (fraction, after) := readDigits rest; some (whole, fraction, after)
  | (whole, rest) => some (whole, [], rest)

/-- The power of ten after an E, if there is a whole one, and what follows. -/
def readExponent (cs : List Char) : Int × List Char :=
  match cs with
  | c :: rest =>
    if c = 'e' || c = 'E' then
      let (negative, unsigned) := readSign rest
      match readDigits unsigned with
      | ([], _) => (0, cs)
      | (ds, after) => (if negative then -(ofDigits 10 ds : Int) else ofDigits 10 ds, after)
    else (0, cs)
  | [] => (0, cs)

/-- The longest numeral a text starts with, and what follows it. -/
def read? (cs : List Char) : Option (Decimal × List Char) :=
  let (negative, unsigned) := readSign cs
  match readSignificand? unsigned with
  | none => none
  | some (whole, fraction, rest) =>
    let (exponent, after) := readExponent rest
    some (⟨negative, ofDigits 10 (whole ++ fraction), exponent - fraction.length⟩, after)

/-- The double a text without blanks around it stands for: a numeral, or a word for infinity or for no
number. -/
def double? (cs : List Char) : Option Double :=
  let (negative, unsigned) := readSign cs
  match String.ofList (unsigned.map Char.toLower) with
  | "inf" => some (.infinite negative)
  | "infinity" => some (.infinite negative)
  | "nan" => some .nan
  | _ =>
    match read? cs with
    | some (d, []) => some d.toDouble
    | _ => none

/-- The numeral a text starts with after blanks. -/
def leading? (s : String) : Option Decimal :=
  (read? (s.toList.dropWhile isBlank)).map Prod.fst

end Decimal

end LoadPlan.Number
