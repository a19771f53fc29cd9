namespace ApiAtlas

/-- The number `± significand · 2 ^ exponent`. A number has one form: the significand has 53 bits,
or fewer under the least exponent `-1074`. -/
structure Binary64 where
  negative : Bool
  significand : Nat
  exponent : Int
deriving Repr, DecidableEq, Inhabited

namespace Binary64

/-- Zero, of either sign. -/
def zero (negative : Bool) : Binary64 := ⟨negative, 0, -1074⟩

/-- The same number with its sign turned. -/
def neg (x : Binary64) : Binary64 := { x with negative := !x.negative }

/-- Neither zero has a significand. -/
def isZero (x : Binary64) : Bool := x.significand == 0

/-- `num / den` with `2 ^ e` in the numerator or the denominator. -/
def scale (num den : Nat) (e : Int) : Nat × Nat :=
  if 0 ≤ e then (num * Nat.pow 2 e.toNat, den) else (num, den * Nat.pow 2 (-e).toNat)

/-- The quotient rounded to the nearest whole number, a tie to the even one. -/
def roundQuotient (num den : Nat) : Nat :=
  let whole := num / den
  let twice := 2 * (num % den)
  if twice < den then whole
  else if den < twice then whole + 1
  else if whole % 2 = 0 then whole else whole + 1

/-- The nearest number to `± num / den` for a positive `den`, if it is within range. -/
def ofRatio (negative : Bool) (num den : Nat) : Option Binary64 :=
  if num = 0 then some (zero negative)
  else
    -- `guess` is the exponent of the leading bit of the quotient, or one more than it.
    let guess : Int := (num.log2 : Int) - den.log2
    let (top, bottom) := scale num den (-guess)
    let lead := if top < bottom then guess - 1 else guess
    let exponent := max (lead - 52) (-1074)
    let (top, bottom) := scale num den (-exponent)
    let significand := roundQuotient top bottom
    let (significand, exponent) :=
      if significand = Nat.pow 2 53 then (Nat.pow 2 52, exponent + 1) else (significand, exponent)
    if 971 < exponent then none else some ⟨negative, significand, exponent⟩

/-- The nearest number to a whole number. -/
def ofInt (z : Int) : Option Binary64 := ofRatio (z < 0) z.natAbs 1

/-- The absolute value as a quotient. -/
def ratio (x : Binary64) : Nat × Nat := scale x.significand 1 x.exponent

/-- The product, rounded. -/
def mul (x y : Binary64) : Option Binary64 :=
  ofRatio (x.negative != y.negative) (x.ratio.1 * y.ratio.1) (x.ratio.2 * y.ratio.2)

/-- The quotient by a number other than zero, rounded. -/
def div (x y : Binary64) : Option Binary64 :=
  ofRatio (x.negative != y.negative) (x.ratio.1 * y.ratio.2) (x.ratio.2 * y.ratio.1)

/-- The whole number that `x` is, if it is one. -/
def toInt? (x : Binary64) : Option Int :=
  let (num, den) := x.ratio
  if num % den = 0 then some (if x.negative then -((num / den : Nat) : Int) else (num / den : Nat))
  else none

end Binary64

end ApiAtlas
