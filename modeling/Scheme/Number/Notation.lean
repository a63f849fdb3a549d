import Scheme.Number.Decimal

/-!
# How numbers are written

A float is written with a point or, where it is far from one, with an exponent.
-/

namespace Scheme

def writeNat (n : Nat) : List Char := Nat.toDigits 10 n

def writeInt (n : Int) : String := n.repr

namespace Decimal

/-- Digits with `point` of them before the point. -/
def positional (ds : List Char) (point : Int) : List Char :=
  if point ≤ 0 then '0' :: '.' :: (List.replicate (-point).toNat '0' ++ ds)
  else if ds.length ≤ point then ds ++ List.replicate (point.toNat - ds.length) '0' ++ ['.', '0']
  else ds.take point.toNat ++ '.' :: ds.drop point.toNat

def writeExponent (e : Int) : List Char :=
  let ds := writeNat e.natAbs
  'e' :: (if e < 0 then '-' else '+') :: (List.replicate (2 - ds.length) '0' ++ ds)

/-- One digit, the rest after a point if there are more, and the exponent. -/
def scientific (ds : List Char) (e : Int) : List Char :=
  match ds with
  | d :: rest@(_ :: _) => d :: '.' :: (rest ++ writeExponent e)
  | _ => ds ++ writeExponent e

def write (d : Decimal) : List Char :=
  let ds := writeNat d.digits
  let leading := d.exponent + ds.length - 1
  if -4 ≤ leading ∧ leading < 16 then positional ds (leading + 1) else scientific ds leading

end Decimal

def writeFloat (x : Float) : String :=
  if x.isNaN then "nan"
  else
    let magnitude :=
      if x.isInf then ['i', 'n', 'f']
      else if x == 0.0 then ['0', '.', '0']
      else (Decimal.shortest x.abs).write
    String.ofList (if signBit x then '-' :: magnitude else magnitude)

end Scheme
