import Scheme.Number.Decimal
import Scheme.Text.Digit

/-!
# Numerals

Digits alone write an integer; with a point or an exponent they write a decimal fraction.
-/

namespace Scheme

open Scheme.Text

inductive Numeral where
  /-- a sign and the digits, of which there is at least one -/
  | integer (negative : Bool) (digits : List Nat)
  /-- a sign, all digits, and the power of ten that the last of them counts -/
  | fraction (negative : Bool) (digits : List Nat) (exponent : Int)
deriving DecidableEq

namespace Numeral

/-- Whether a minus sign comes first, and the text after the sign. -/
def splitSign : List Char → Bool × List Char
  | '-' :: rest => (true, rest)
  | '+' :: rest => (false, rest)
  | rest => (false, rest)

def signed (negative : Bool) (n : Nat) : Int :=
  if negative then -n else n

/-- An exponent that fills the text: its mark, an optional sign and at least one digit. -/
def exponent? : List Char → Option Int
  | mark :: rest =>
    if mark = 'e' ∨ mark = 'E' then
      let (negative, rest) := splitSign rest
      match digitRun rest with
      | (d :: ds, []) => some (signed negative (ofDigits (d :: ds)))
      | _ => none
    else none
  | [] => none

/-- The exponent if there is text left, and otherwise none. -/
def optionalExponent? : List Char → Option Int
  | [] => some 0
  | rest => exponent? rest

/-- What the text after the sign writes. -/
def unsigned? (negative : Bool) (s : List Char) : Option Numeral :=
  let (whole, rest) := digitRun s
  match rest with
  | [] => if whole.isEmpty then none else some (.integer negative whole)
  | '.' :: rest =>
    let (part, rest) := digitRun rest
    if whole.isEmpty && part.isEmpty then none
    else (optionalExponent? rest).map fun e => .fraction negative (whole ++ part) (e - part.length)
  | rest =>
    if whole.isEmpty then none
    else (exponent? rest).map fun e => .fraction negative whole e

def ofText? (s : List Char) : Option Numeral :=
  let (negative, rest) := splitSign s
  unsigned? negative rest

/-- The float that a fraction is read as. -/
def toFloat (negative : Bool) (digits : List Nat) (exponent : Int) : Float :=
  let x := Decimal.toFloat ⟨ofDigits digits, exponent⟩
  if negative then -x else x

end Numeral

end Scheme
