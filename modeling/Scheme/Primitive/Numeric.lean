import Scheme.Number.Arithmetic
import Scheme.Primitive.Arity
import Scheme.Value.Nesting

/-!
# Numeric primitives

All arguments are checked to be numbers before anything is computed.
-/

namespace Scheme.Primitive

def isNumeric : Primitive → Bool
  | .add | .sub | .mul | .div | .pow | .expt | .compare _ | .math _ => true
  | _ => false

/-- The arguments as numbers, unless one is none: the error names the first such argument, if there
is room to write it. -/
def numbers (describe : ClosureId → String) (room : Nat) (name : String) :
    List Value → Except Error (List Number)
  | [] => .ok []
  | v :: vs =>
    match v.number? with
    | some n => (numbers describe room name vs).map (n :: ·)
    | none => do
      v.visit room
      throw (.notANumber name (v.write describe))

/-- The result of an operation that has none where an integer is too large to meet a float. -/
def orTooLarge (name : String) : Option Number → Except Error Number
  | some n => .ok n
  | none => .error (.noResult name .tooLarge)

/-- Combines numbers from the left. -/
def accumulate (name : String) (op : Number → Number → Option Number) (first : Number)
    (rest : List Number) : Except Error Number :=
  rest.foldlM (fun a b => orTooLarge name (op a b)) first

def divide (a b : Number) : Except Error Number :=
  if b.isZero then .error .divisionByZero
  else orTooLarge (name .div) (a.quotient? b)

/-- An integer to an integer power is exact unless the power is negative. -/
def power (base exponent : Number) : Except Error Number :=
  let inexact : Except Error Number :=
    if base.isZero && exponent.isNegative then .error .zeroToNegativePower
    else match base.toFloat?, exponent.toFloat? with
      | some x, some y =>
        match floatPower x y with
        | .ok z => .ok (.float z)
        | .error fault => .error (.noResult (name .pow) fault)
      | _, _ => .error (.noResult (name .pow) .tooLarge)
  match base, exponent with
  | .int b, .int e => if 0 ≤ e then .ok (.int (Number.intPow b e.toNat)) else inexact
  | _, _ => inexact

/-- The result for arguments that are numbers. -/
def compute : Primitive → List Number → Except Error Value
  | .add, ns => .num <$> accumulate (name .add) Number.add? (.int 0) ns
  | .sub, [a] => .ok (.num a.neg)
  | .sub, a :: rest => .num <$> accumulate (name .sub) Number.sub? a rest
  | .mul, ns => .num <$> accumulate (name .mul) Number.mul? (.int 1) ns
  | .div, [a] => .num <$> divide (.int 1) a
  | .div, a :: rest => .num <$> rest.foldlM divide a
  | .pow, [base, exponent] => .num <$> power base exponent
  | .expt, [base, exponent] => .num <$> power base exponent
  | .compare r, ns => .ok (.bool (r.chain ns))
  | .math f, [a] =>
    match f.apply a with
    | .ok x => .ok (.num (.float x))
    | .error fault => .error (.noResult f.name fault)
  | p, ns => .error (p.arityError ns.length)

def callNumeric (describe : ClosureId → String) (room : Nat) (p : Primitive) (args : List Value) :
    Except Error Value := do
  p.checkArity args.length
  p.compute (← numbers describe room p.reportedName args)

end Scheme.Primitive
