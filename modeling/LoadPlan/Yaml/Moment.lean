import LoadPlan.Yaml.Character

/-! Dates and times. -/
namespace LoadPlan.Yaml

/-- A time of day. -/
structure Clock where
  hour : Nat
  minute : Nat
  second : Nat
  microsecond : Nat
  /-- Minutes before universal time, if a zone is given. -/
  offset : Option Int
  deriving DecidableEq, Repr

/-- A date, with a time of day or without. -/
structure Moment where
  year : Nat
  month : Nat
  day : Nat
  clock : Option Clock
  deriving DecidableEq, Repr

namespace Moment

/-- A number of at least and at most so many digits, and what follows. -/
def number? (least most : Nat) (cs : List Char) : Option (Nat × List Char) :=
  let ds := (cs.take most).takeWhile isDigit
  if ds.length < least then none
  else some (Text.ofDigits 10 (ds.map fun d => d.toNat - 0x30), cs.drop ds.length)

/-- What follows a character that has to come next. -/
def after? (c : Char) : List Char → Option (List Char)
  | [] => none
  | a :: rest => if a = c then some rest else none

/-- The digits of a fraction as millionths; further digits do not count. -/
def millionths (ds : List Char) : Nat :=
  Text.ofDigits 10 (((ds ++ List.replicate 6 '0').take 6).map fun d => d.toNat - 0x30)

/-- The offset of a zone at the end of a time. -/
def zone? (cs : List Char) : Option (Option Int) :=
  match cs.dropWhile isBlank with
  | [] => if cs.isEmpty then some none else none
  | ['Z'] => some (some 0)
  | sign :: rest =>
    if sign != '+' && sign != '-' then none
    else do
      let (hours, rest) ← number? 1 2 rest
      let minutes ← match rest with
        | [] => some 0
        | ':' :: rest => do
          let (minutes, rest) ← number? 2 2 rest
          if rest.isEmpty then some minutes else none
        | _ => none
      let offset : Int := 60 * hours + minutes
      return some (if sign == '-' then -offset else offset)

/-- The time of day after a date. -/
def clock? (cs : List Char) : Option Clock := do
  let (hour, rest) ← number? 1 2 cs
  let (minute, rest) ← number? 2 2 (← after? ':' rest)
  let (second, rest) ← number? 2 2 (← after? ':' rest)
  let (fraction, rest) := match rest with
    | '.' :: rest => (rest.takeWhile isDigit, rest.dropWhile isDigit)
    | rest => ([], rest)
  let offset ← zone? rest
  return ⟨hour, minute, second, millionths fraction, offset⟩

/-- What separates a time from its date. -/
def afterDate? (cs : List Char) : Option (List Char) :=
  match cs with
  | 'T' :: rest => some rest
  | 't' :: rest => some rest
  | c :: rest => if isBlank c then some (rest.dropWhile isBlank) else none
  | [] => none

/-- The numbers of a date and a time, which need not exist. -/
def read? (cs : List Char) : Option Moment := do
  let (year, rest) ← number? 4 4 cs
  let (month, rest) ← number? 1 2 (← after? '-' rest)
  let (day, rest) ← number? 1 2 (← after? '-' rest)
  if rest.isEmpty then return ⟨year, month, day, none⟩
  let clock ← clock? (← afterDate? rest)
  return ⟨year, month, day, some clock⟩

/-- Whether a text is taken for a moment without being marked as one: then a date without a time has two
digits for month and day. -/
def looksLike (cs : List Char) : Bool :=
  match read? cs with
  | some m => m.clock.isSome || cs.length == 10
  | none => false

def isLeap (year : Nat) : Bool :=
  year % 4 == 0 && (year % 100 != 0 || year % 400 == 0)

def daysIn (year month : Nat) : Nat :=
  if month = 2 then if isLeap year then 29 else 28
  else if month = 4 || month = 6 || month = 9 || month = 11 then 30
  else 31

/-- A time of day that exists, in a zone less than a day away. -/
def isPossibleClock (c : Clock) : Bool :=
  c.hour < 24 && c.minute < 60 && c.second < 60 && c.offset.all fun o => o.natAbs < 24 * 60

def isPossible (m : Moment) : Bool :=
  1 ≤ m.year && 1 ≤ m.month && m.month ≤ 12 && 1 ≤ m.day && m.day ≤ daysIn m.year m.month &&
    m.clock.all isPossibleClock

/-- A number in at least so many digits. -/
def padded (width n : Nat) : String :=
  let ds := Nat.repr n
  String.ofList (List.replicate (width - ds.length) '0') ++ ds

def zoneText (offset : Int) : String :=
  let m := offset.natAbs
  (if offset < 0 then "-" else "+") ++ s!"{padded 2 (m / 60)}:{padded 2 (m % 60)}"

def clockText (c : Clock) : String :=
  let fraction := if c.microsecond = 0 then "" else "." ++ padded 6 c.microsecond
  let zone := match c.offset with
    | some o => zoneText o
    | none => ""
  s!" {padded 2 c.hour}:{padded 2 c.minute}:{padded 2 c.second}" ++ fraction ++ zone

/-- A moment as text. -/
def text (m : Moment) : String :=
  let clock := match m.clock with
    | some c => clockText c
    | none => ""
  s!"{padded 4 m.year}-{padded 2 m.month}-{padded 2 m.day}" ++ clock

end Moment

end LoadPlan.Yaml
