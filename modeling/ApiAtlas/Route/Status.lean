import ApiAtlas.Number.Decimal
import ApiAtlas.Text.Pieces

namespace ApiAtlas

/-- The answers that a response is for. -/
inductive Status
  | code (number : Nat)
  | range (digit : Nat)
  | default
deriving Repr, DecidableEq, Inhabited

namespace Status

/-- The number that a text of decimal digits spells, with a plus sign in front or without. -/
def number? (key : List Char) : Option Nat :=
  let digits := match key with
    | '+' :: digits => digits
    | digits => digits
  if digits ≠ [] ∧ digits.all Char.isDigit then
    some (digitsValue (digits.map fun c => c.toNat - '0'.toNat))
  else none

/-- The status of a key. -/
def ofChars? (key : List Char) : Option Status :=
  if key = ['d', 'e', 'f', 'a', 'u', 'l', 't'] then some .default
  else
    match key with
    | [d, x, y] =>
      if x.toLower = 'x' ∧ y.toLower = 'x' then
        if '1' ≤ d ∧ d ≤ '5' then some (.range (d.toNat - '0'.toNat)) else none
      else ofNumber? key
    | key => ofNumber? key
where
  ofNumber? (key : List Char) : Option Status :=
    (number? key).bind fun n => if 100 ≤ n ∧ n ≤ 599 then some (.code n) else none

/-- The status of a key. -/
def parse (key : String) : Option Status := ofChars? key.toList

/-- The key of a status. -/
def text : Status → String
  | .code number => toString number
  | .range digit => toString digit ++ "XX"
  | .default => "default"

/-- The status says that the request was met. -/
def isSuccess : Status → Bool
  | .code number => 200 ≤ number && number < 300
  | .range digit => digit == 2
  | .default => false

end Status

end ApiAtlas
