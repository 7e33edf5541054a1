import LoadPlan.Number.Decimal

/-! Decimal integers in digits of any script, with a limit on their length. -/
namespace LoadPlan.Number.Integer

open LoadPlan.Text

/-- More digits than this are neither read nor written. -/
def digitLimit : Nat := 4300

/-- The blanks allowed around an integer: all but the ASCII separators. -/
def isSpace (c : Char) : Bool :=
  isBlank c && !(0x1C ≤ c.toNat && c.toNat ≤ 0x1F)

/-- Digits with at most one underscore between two of them, and nothing else. -/
def digits? : List Char → Option (List Nat)
  | [] => none
  | [c] => (digit? c).map ([·])
  | c :: '_' :: rest =>
    match digit? c, digits? rest with
    | some d, some ds => some (d :: ds)
    | _, _ => none
  | c :: rest =>
    match digit? c, digits? rest with
    | some d, some ds => some (d :: ds)
    | _, _ => none

/-- The integer a text holds. -/
def read? (s : String) : Option Int :=
  let (negative, unsigned) := Decimal.readSign (stripWhere isSpace s.toList)
  match digits? unsigned with
  | none => none
  | some ds =>
    if digitLimit < ds.length then none
    else some (if negative then -(ofDigits 10 ds : Int) else ofDigits 10 ds)

/-- The value of a digit in a base of at most sixteen: a decimal one of any script, or a letter. -/
def digitIn? (base : Nat) (c : Char) : Option Nat :=
  (digit? c <|> hexDigit? c).filter (· < base)

/-- The integer a text holds in some other base than ten. Zero and a letter for the base may stand before
the digits. -/
def readIn? (base : Nat) (letter : Char) (cs : List Char) : Option Int :=
  let (negative, unsigned) := Decimal.readSign (stripWhere isSpace cs)
  let digits := match unsigned with
    | '0' :: c :: rest => if c.toLower = letter then rest else unsigned
    | _ => unsigned
  if digits.isEmpty then none
  else
    (digits.mapM (digitIn? base)).map fun ds =>
      if negative then -(ofDigits base ds : Int) else ofDigits base ds

/-- An integer in decimal. -/
def text (n : Int) : String :=
  if n < 0 then "-" ++ Nat.repr n.natAbs else Nat.repr n.natAbs

/-- An integer in decimal, unless it is too long. -/
def text? (n : Int) : Option String :=
  if (Nat.repr n.natAbs).length ≤ digitLimit then some (text n) else none

end LoadPlan.Number.Integer
