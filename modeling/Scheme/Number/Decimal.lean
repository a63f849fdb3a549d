import Scheme.Number.Binary

/-!
# Decimal fractions and the floats they stand for

A decimal is read as the nearest float, and a float is written as the shortest decimal.
-/

namespace Scheme

/-- The number `digits * 10 ^ exponent`. -/
structure Decimal where
  digits : Nat
  exponent : Int
deriving DecidableEq

namespace Decimal

/-- The float nearest to a decimal. Decimals far beyond the largest float, or far below the least
one, are decided without computing their power of ten. -/
def toFloat (d : Decimal) : Float :=
  if d.digits = 0 then 0.0
  else if 310 < d.exponent then infinity
  else if d.exponent + d.digits.log2 / 3 < -400 then 0.0
  else Float.ofScientific d.digits (decide (d.exponent < 0)) d.exponent.natAbs

/-! ## The fewest digits that read back -/

def readsAs (d : Decimal) (x : Float) : Bool :=
  d.toFloat.toBits == x.toBits

/-- The largest multiple of `10 ^ exponent` that is not above `b`. -/
def below (b : Binary) (exponent : Int) : Decimal :=
  ⟨b.num * Nat.pow 10 (-exponent).toNat / (b.den * Nat.pow 10 exponent.toNat), exponent⟩

/-- The next multiple of the same power of ten. -/
def next (d : Decimal) : Decimal := ⟨d.digits + 1, d.exponent⟩

/-- Where `b` lies between `d` and the next decimal: before, at or after the middle. -/
def middle (b : Binary) (d : Decimal) : Ordering :=
  compare (2 * b.num * Nat.pow 10 (-d.exponent).toNat)
    ((2 * d.digits + 1) * b.den * Nat.pow 10 d.exponent.toNat)

/-- The multiple of `10 ^ exponent` nearest to `x` that reads back as `x`, if there is one. -/
def onGrid? (x : Float) (b : Binary) (exponent : Int) : Option Decimal :=
  let lower := below b exponent
  let upper := lower.next
  match lower.readsAs x, upper.readsAs x with
  | false, false => none
  | true, false => some lower
  | false, true => some upper
  | true, true =>
    match middle b lower with
    | .lt => some lower
    | .gt => some upper
    | .eq => some (if lower.digits % 2 = 0 then lower else upper)

/-- The least `k` with `b < 10 ^ k`. It is found from the binary logarithm, whose decimal
counterpart is at most one too high. -/
def scale (b : Binary) : Int :=
  let guess := ((b.mantissa.log2 : Int) + b.exponent) * 30103 / 100000 - 1
  let candidates := (List.range 5).map fun i : Nat => guess + (i : Int)
  let below (k : Int) : Bool := b.num * Nat.pow 10 (-k).toNat < b.den * Nat.pow 10 k.toNat
  (candidates.find? below).getD (guess + 5)

/-- All decimals of the binary fraction. -/
def ofBinary (b : Binary) : Decimal :=
  if 0 ≤ b.exponent then ⟨b.num, 0⟩ else ⟨b.mantissa * Nat.pow 5 (-b.exponent).toNat, b.exponent⟩

/-- The decimal without the zeros behind its last other digit, of which it drops at most `n`. -/
def dropZeros : Nat → Decimal → Decimal
  | 0, d => d
  | n + 1, d => if d.digits % 10 = 0 then dropZeros n ⟨d.digits / 10, d.exponent + 1⟩ else d

/-- The decimal that a positive finite float is written as. Seventeen digits always tell a float
from its neighbours. -/
def shortest (x : Float) : Decimal :=
  let b := Binary.ofFloat x
  let k := scale b
  let found := (List.range 17).findSome? fun n : Nat => onGrid? x b (k - 1 - (n : Int))
  dropZeros 17 (found.getD (ofBinary b))

end Decimal

end Scheme
