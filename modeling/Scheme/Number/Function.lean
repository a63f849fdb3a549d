import Scheme.Number.Basic

/-!
# Powers and functions of floats

A function of floats has no result outside its domain and beyond its range.
-/

namespace Scheme

inductive MathFault where
  | domain
  | range
  /-- an integer beyond the largest float -/
  | tooLarge
deriving DecidableEq

def MathFault.text : MathFault → String
  | .domain => "math domain error"
  | .range => "math range error"
  | .tooLarge => "int too large to convert to float"

inductive MathFunction where
  | sin
  | cos
  | tan
  | asin
  | acos
  | atan
  | exp
  | log
  | log10
  | sqrt
deriving DecidableEq

namespace MathFunction

def name : MathFunction → String
  | .sin => "sin"
  | .cos => "cos"
  | .tan => "tan"
  | .asin => "asin"
  | .acos => "acos"
  | .atan => "atan"
  | .exp => "exp"
  | .log => "log"
  | .log10 => "log10"
  | .sqrt => "sqrt"

def onFloat : MathFunction → Float → Float
  | .sin => Float.sin
  | .cos => Float.cos
  | .tan => Float.tan
  | .asin => Float.asin
  | .acos => Float.acos
  | .atan => Float.atan
  | .exp => Float.exp
  | .log => Float.log
  | .log10 => Float.log10
  | .sqrt => Float.sqrt

/-- A logarithm, which is also defined for integers beyond the largest float. -/
def isLogarithm : MathFunction → Bool
  | .log => true
  | .log10 => true
  | _ => false

/-- The value at a float, if the float is in the domain and the value in the range. -/
def checked (f : MathFunction) (x : Float) : Except MathFault Float :=
  if f.isLogarithm && x <= 0.0 then .error .domain
  else
    let y := f.onFloat x
    if y.isNaN && !x.isNaN then .error .domain
    else if y.isInf && x.isFinite then .error .range
    else .ok y

/-- A natural number as a fraction from a half to one, rounded to a float, and a power of two. -/
def fractionAndPower (n : Nat) : Float × Nat :=
  let size := n.log2 + 1
  let drop := size - 53
  let kept := n >>> drop
  let lost := n - kept <<< drop
  let rounded :=
    match compare (2 * lost) (1 <<< drop) with
    | .lt => kept
    | .gt => kept + 1
    | .eq => if kept % 2 = 0 then kept else kept + 1
  if rounded = Nat.pow 2 53 then (0.5, size + 1)
  else (Float.ofScientific rounded false 0 / 9007199254740992.0, size)

/-- A logarithm of an integer beyond the largest float is put together from the logarithms of its
fraction and of its power of two. -/
def logarithmOfLarge (f : MathFunction) (n : Nat) : Float :=
  let (fraction, power) := fractionAndPower n
  f.onFloat fraction + f.onFloat 2.0 * Float.ofScientific power false 0

def apply (f : MathFunction) (a : Number) : Except MathFault Float :=
  match a.toFloat?, a with
  | some x, _ => f.checked x
  | none, .int n =>
    if f.isLogarithm then
      if n ≤ 0 then .error .domain else .ok (f.logarithmOfLarge n.natAbs)
    else .error .tooLarge
  | none, .float _ => .error .tooLarge

end MathFunction

/-- A power of floats. -/
def floatPower (x y : Float) : Except MathFault Float :=
  let z := x.pow y
  if z.isNaN && !x.isNaN && !y.isNaN then .error .domain
  else if z.isInf && x.isFinite && y.isFinite then .error .range
  else .ok z

end Scheme
