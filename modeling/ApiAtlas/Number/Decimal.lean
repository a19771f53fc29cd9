import ApiAtlas.Number.Binary64

namespace ApiAtlas

/-- A decimal as written: digits of the whole part, digits of the fraction, exponent of ten. -/
structure Decimal where
  negative : Bool
  whole : List Nat
  fraction : List Nat
  exponent : Int
deriving Repr, DecidableEq

/-- The number that a list of decimal digits spells. -/
def digitsValue (digits : List Nat) : Nat :=
  digits.foldl (fun n d => 10 * n + d) 0

/-- `num / den` with `10 ^ e` in the numerator or the denominator. -/
def scaleTen (num den : Nat) (e : Int) : Nat × Nat :=
  if 0 ≤ e then (num * Nat.pow 10 e.toNat, den) else (num, den * Nat.pow 10 (-e).toNat)

/-- The binary64 number nearest to the decimal, if it is within range. A decimal whose leading
digit stands far outside the range is settled by its place alone. -/
def Decimal.nearest (d : Decimal) : Option Binary64 :=
  let digits := (d.whole ++ d.fraction).dropWhile (· == 0)
  let point := d.exponent - d.fraction.length
  let top := point + digits.length
  if digits.isEmpty ∨ top < -400 then some (Binary64.zero d.negative)
  else if 400 < top then none
  else
    let (num, den) := scaleTen (digitsValue digits) 1 point
    Binary64.ofRatio d.negative num den

/-- Append digits to a number while it stays below `2 ^ 64`; the digits left over are returned. -/
def appendDigits (n : Nat) : List Nat → Nat × List Nat
  | [] => (n, [])
  | d :: ds => if 10 * n + d < Nat.pow 2 64 then appendDigits (10 * n + d) ds else (n, d :: ds)

/-- A power of ten as a binary64 number. -/
def tenTo (n : Nat) : Binary64 :=
  (Binary64.ofRatio false (Nat.pow 10 n) 1).getD (Binary64.zero false)

/-- Scale by a power of ten in steps of at most `10 ^ 308`. Two steps down reach zero from any
64-bit number, so `steps` need not be more than that. -/
def scaleStepwise (x : Binary64) (exponent : Int) : Nat → Option Binary64
  | 0 => some x
  | steps + 1 =>
    if x.isZero then some x
    else if exponent.natAbs ≤ 308 then
      if 0 ≤ exponent then x.mul (tenTo exponent.natAbs) else x.div (tenTo exponent.natAbs)
    else if 0 ≤ exponent then none
    else (x.div (tenTo 308)).bind fun y => scaleStepwise y (exponent + 308) steps

/-- The binary64 number made of the leading digits that fit 64 bits and a power of ten, if it is
within range. -/
def Decimal.stepwise (d : Decimal) : Option Binary64 :=
  let (n, restWhole) := appendDigits 0 d.whole
  let (n, restFraction) := appendDigits n d.fraction
  let used := d.fraction.length - restFraction.length
  let point : Int := restWhole.length - used
  -- Exponents are kept in 32 bits: the written one must fit, the sum is cut off.
  if Nat.pow 2 31 ≤ d.exponent.natAbs then
    if n ≠ 0 ∧ 0 < d.exponent then none else some (Binary64.zero d.negative)
  else
    let bound : Int := Nat.pow 2 31
    let exponent := max (-bound) (min (bound - 1) (point + d.exponent))
    (Binary64.ofRatio false n 1).bind fun x =>
      (scaleStepwise x exponent 4).map fun y => if d.negative then y.neg else y

namespace Binary64

/-- The quotient `num / den` lies among the numbers that round to `x`. -/
def roundsTo (x : Binary64) (num den : Nat) : Bool :=
  match ofRatio x.negative num den with
  | some y => y == x
  | none => false

/-- The number of digits before the point of `num / den`; zero or less for small fractions. -/
def magnitude (num den : Nat) : Int :=
  -- `guess` is within two of the answer.
  let guess : Int := ((num.log2 : Int) - den.log2) * 30103 / 100000
  let reaches (k : Int) : Bool :=
    let (a, b) := scaleTen num den (-k)
    b ≤ a
  if reaches (guess + 2) then guess + 3
  else if reaches (guess + 1) then guess + 2
  else if reaches guess then guess + 1
  else if reaches (guess - 1) then guess
  else if reaches (guess - 2) then guess - 1
  else guess - 2

/-- The whole number of units `10 ^ point` that is nearest to `x` among those that round to `x`:
one of the two neighbours of `x` on that grid, of two equally near ones the even one. -/
def onGrid? (x : Binary64) (point : Int) : Option Nat :=
  let (num, den) := x.ratio
  let (a, b) := scaleTen num den (-point)
  let below := a / b
  let fits (n : Nat) : Bool :=
    let (p, q) := scaleTen n 1 point
    n != 0 && x.roundsTo p q
  let nearBelow := 2 * (a % b) < b || (2 * (a % b) == b && below % 2 == 0)
  let (first, second) := if nearBelow then (below, below + 1) else (below + 1, below)
  if fits first then some first else if fits second then some second else none

/-- The fewest decimal digits that round to `x`, and the power of ten of the last one. -/
def shortestFrom (x : Binary64) (top : Int) (count : Nat) : Nat → Nat × Int
  | 0 => (0, 0)
  | left + 1 =>
    match x.onGrid? (top - count) with
    | some n => (n, top - count)
    | none => shortestFrom x top (count + 1) left

/-- Drop up to `left` zeros at the end of a number, raising the power of ten. -/
def dropZeros (n : Nat) (point : Int) : Nat → Nat × Int
  | 0 => (n, point)
  | left + 1 => if n % 10 = 0 then dropZeros (n / 10) (point + 1) left else (n, point)

/-- The fewest decimal digits that round to `x`, a zero not last, and the power of ten of the last
one. -/
def shortest (x : Binary64) : Nat × Int :=
  let (num, den) := x.ratio
  let (n, point) := shortestFrom x (magnitude num den) 1 17
  dropZeros n point 17

end Binary64

/-- How the exponent of a number is marked once it is written. -/
structure ExponentStyle where
  plus : Bool
deriving Repr, DecidableEq

/-- The decimal digits of a natural number. -/
def natDigits (n : Nat) : List Char := Nat.toDigits 10 n

/-- The text of a whole number. -/
def intText (z : Int) : List Char :=
  if z < 0 then '-' :: natDigits z.natAbs else natDigits z.natAbs

/-- Digits with the point after the first `place` of them: positional while the point falls within
sixteen places left or five places right of the first digit, and with an exponent elsewhere. -/
def placeDigits (style : ExponentStyle) (digits : List Char) (place : Int) : List Char :=
  let count : Int := digits.length
  if 0 < place ∧ place ≤ 16 then
    if count ≤ place then digits ++ List.replicate (place - count).toNat '0' ++ ['.', '0']
    else digits.take place.toNat ++ '.' :: digits.drop place.toNat
  else if -5 < place ∧ place ≤ 0 then
    '0' :: '.' :: List.replicate (-place).toNat '0' ++ digits
  else
    let exponent := place - 1
    let mark := if 0 ≤ exponent ∧ style.plus then ['e', '+'] else ['e']
    let mantissa := match digits with
      | [] => []
      | [d] => [d]
      | d :: ds => d :: '.' :: ds
    mantissa ++ mark ++ intText exponent

/-- A binary64 number in its fewest digits. A whole number keeps one zero after the point. -/
def Binary64.text (style : ExponentStyle) (x : Binary64) : List Char :=
  let sign := if x.negative then ['-'] else []
  if x.isZero then sign ++ ['0', '.', '0']
  else
    let (n, point) := x.shortest
    let digits := natDigits n
    sign ++ placeDigits style digits (digits.length + point)

end ApiAtlas
