/-!
# Floats as binary fractions

A finite float is a natural number times a power of two, with a sign.
-/

namespace Scheme

/-- The number `mantissa * 2 ^ exponent`. -/
structure Binary where
  mantissa : Nat
  exponent : Int
deriving DecidableEq

namespace Binary

/-- The magnitude of a finite float. The bits of infinities and of what is not a number stand for
no binary fraction: they are told apart before. -/
def ofFloat (x : Float) : Binary :=
  let e := (x.toBits >>> 52 &&& 0x7FF).toNat
  let f := (x.toBits &&& 0xFFFFFFFFFFFFF).toNat
  if e = 0 then ⟨f, -1074⟩ else ⟨Nat.pow 2 52 + f, (e : Int) - 1075⟩

def num (b : Binary) : Nat := b.mantissa * Nat.pow 2 b.exponent.toNat

def den (b : Binary) : Nat := Nat.pow 2 (-b.exponent).toNat

end Binary

/-- Whether the sign bit is set: also for the negative zero. -/
def signBit (x : Float) : Bool :=
  x.toBits >>> 63 == 1

def infinity : Float := Float.ofBits 0x7FF0000000000000

/-- The value of a finite float. -/
def exactValue (x : Float) : Rat :=
  let b := Binary.ofFloat x
  mkRat (if signBit x then -(b.num : Int) else b.num) b.den

end Scheme
