import Scheme.Number.Notation

/-!
# Numbers

An integer of any size, or a float, which too large an integer cannot meet.
-/

namespace Scheme

inductive Number where
  | int (n : Int)
  | float (x : Float)
deriving DecidableEq

namespace Number

def write : Number → String
  | .int n => writeInt n
  | .float x => writeFloat x

def isZero : Number → Bool
  | .int n => n == 0
  | .float x => x == 0.0

def isNegative : Number → Bool
  | .int n => n < 0
  | .float x => x < 0.0

/-- The float nearest to a natural number, if it is within the range of floats. -/
def floatOfNat? (n : Nat) : Option Float :=
  let x := Float.ofScientific n false 0
  if x.isInf then none else some x

def toFloat? : Number → Option Float
  | .int n => (floatOfNat? n.natAbs).map fun x => if n < 0 then -x else x
  | .float x => some x

/-- Two numbers are the same datum if they are of one kind and equal. -/
def same : Number → Number → Bool
  | .int m, .int n => m == n
  | .float x, .float y => x == y
  | _, _ => false

end Number

end Scheme
