import LoadPlan.Text.Visible

/-! Texts in quotes, with escapes for quotes, backslashes and characters without a visible form. -/
namespace LoadPlan.Text.Quoted

def hexDigit (n : Nat) : Char :=
  Nat.digitChar (n % 16)

/-- The lowest digits of a number in base sixteen. -/
def hex (width n : Nat) : List Char :=
  match width with
  | 0 => []
  | w + 1 => hex w (n / 16) ++ [hexDigit n]

/-- A character between quotes of a given kind. -/
def encodeChar (quote c : Char) : List Char :=
  if c = quote || c = '\\' then ['\\', c]
  else if c = '\n' then ['\\', 'n']
  else if c = '\r' then ['\\', 'r']
  else if c = '\t' then ['\\', 't']
  else if isVisible c then [c]
  else
    let n := c.toNat
    if n < 0x100 then '\\' :: 'x' :: hex 2 n
    else if n < 0x10000 then '\\' :: 'u' :: hex 4 n
    else '\\' :: 'U' :: hex 8 n

/-- Single quotes are used unless the text holds one and no double quote. -/
def quoteOf (cs : List Char) : Char :=
  if cs.contains '\x27' && !cs.contains '"' then '"' else '\x27'

def encode (s : String) : String :=
  let cs := s.toList
  let q := quoteOf cs
  String.ofList (q :: cs.flatMap (encodeChar q) ++ [q])

end LoadPlan.Text.Quoted
