import LoadPlan.Number.Integer
import LoadPlan.Text.Bytes
import LoadPlan.Text.Character
import LoadPlan.Yaml.Failure
import LoadPlan.Yaml.Tag
import LoadPlan.Yaml.Value

/-! Scalars turned into the values their tags ask for. -/
namespace LoadPlan.Yaml.Conversion

/-- The sign of a number and what follows it. At least one character is needed. -/
def signed (cs : List Char) : Except Failure (Bool × List Char) :=
  match cs with
  | [] => throw (Unconvertible.noDigits : Failure)
  | '-' :: rest => return (true, rest)
  | '+' :: rest => return (false, rest)
  | cs => return (false, cs)

def withoutUnderscores (s : String) : List Char :=
  s.toList.filter (· != '_')

def orNotNumber {α : Type} : Option α → Except Failure α
  | some a => return a
  | none => throw (Unconvertible.notNumber : Failure)

def decimal (cs : List Char) : Except Failure Int :=
  orNotNumber (Number.Integer.read? (String.ofList cs))

/-- Numbers in base sixty, the most significant first. -/
def sixties (ns : List Int) : Int :=
  ns.foldl (fun sum n => 60 * sum + n) 0

/-- An integer after its sign. -/
def magnitude (cs : List Char) : Except Failure Int :=
  match cs with
  | [] => throw (Unconvertible.noDigits : Failure)
  | ['0'] => return 0
  | '0' :: 'b' :: rest => orNotNumber (Number.Integer.readIn? 2 'b' rest)
  | '0' :: 'x' :: rest => orNotNumber (Number.Integer.readIn? 16 'x' rest)
  | '0' :: _ => orNotNumber (Number.Integer.readIn? 8 'o' cs)
  | _ =>
    if cs.contains ':' then do
      let parts ← (Text.parts ':' cs).mapM decimal
      return sixties parts
    else decimal cs

def integer (s : String) : Except Failure Int := do
  let (negative, rest) ← signed (withoutUnderscores s)
  let n ← magnitude rest
  return if negative then -n else n

def double (cs : List Char) : Except Failure Number.Double :=
  orNotNumber (Number.Decimal.double? (Text.stripWhere Number.Integer.isSpace cs))

/-- The sum of numbers in base sixty, the least significant first, added one by one. -/
def sumOfSixties (sum : Number.Double) (scale : Nat) :
    List Number.Double → Except Failure Number.Double
  | [] => return sum
  | x :: xs =>
    match Number.Double.ofInt? scale with
    | none => throw (Unconvertible.tooLarge : Failure)
    | some factor => sumOfSixties (sum.add (x.mul factor)) (60 * scale) xs

def float (s : String) : Except Failure Number.Double := do
  let (negative, rest) ← signed ((Text.lower (String.ofList (withoutUnderscores s))).toList)
  let x ← match String.ofList rest with
    | ".inf" => pure (Number.Double.infinite false)
    | ".nan" => pure Number.Double.nan
    | _ =>
      if rest.contains ':' then do
        let parts ← (Text.parts ':' rest).mapM double
        sumOfSixties .zero 1 parts.reverse
      else double rest
  return if negative then x.negate else x

def boolean (s : String) : Except Failure Bool :=
  match Text.lower s with
  | "yes" => return true
  | "true" => return true
  | "on" => return true
  | "no" => return false
  | "false" => return false
  | "off" => return false
  | _ => throw (Unconvertible.notBoolean : Failure)

def bytes (s : String) : Except Failure Text.Utf8.Bytes :=
  match (if s.toList.all (·.toNat < 0x80) then Text.Base64.decode? s.toList else none) with
  | some bs => return bs
  | none => throw (Malformed.encodedBytes : Failure)

def moment (s : String) : Except Failure Moment :=
  match Moment.read? (Tag.withoutFinalBreak s.toList) with
  | none => throw (Unconvertible.notMoment : Failure)
  | some m => if m.isPossible then return m else throw (Unconvertible.noSuchMoment : Failure)

/-- The value of a text under a tag for scalars. -/
def value (tag : Tag) (s : Scalar) : Except Failure Value :=
  match tag with
  | .null => return .null
  | .boolean => .boolean <$> boolean s.text
  | .integer => .integer <$> integer s.text
  | .float => .float <$> float s.text
  | .bytes => .bytes <$> bytes s.text
  | .moment => .moment <$> moment s.text
  | _ => return .text s

end LoadPlan.Yaml.Conversion
