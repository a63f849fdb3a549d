import Scheme.Error
import Scheme.Primitive

/-!
# How many arguments a primitive takes

The count is checked before anything is asked of the arguments.
-/

namespace Scheme

inductive Arity where
  | exactly (n : Nat)
  | atLeastOne
  | atLeastTwo
  | any
deriving DecidableEq

def Arity.admits : Arity → Nat → Bool
  | .exactly n, count => count == n
  | .atLeastOne, count => 1 ≤ count
  | .atLeastTwo, count => 2 ≤ count
  | .any, _ => true

namespace Primitive

def arity : Primitive → Arity
  | .add | .mul | .list | .append => .any
  | .sub | .div => .atLeastOne
  | .compare _ => .atLeastTwo
  | .pow | .expt | .equal | .cons | .map | .apply => .exactly 2
  | .not | .car | .cdr | .length | .empty | .null | .math _ | .display => .exactly 1
  | .newline => .exactly 0

/-- The name that messages use. Where two names stand for one rule they use the first. -/
def reportedName : Primitive → String
  | .expt => name .pow
  | .null => name .empty
  | p => p.name

/-- The error of a call with so many arguments. -/
def arityError (p : Primitive) (given : Nat) : Error :=
  match p.arity with
  | .exactly n => .exactArity p.reportedName n given
  | .atLeastTwo => .tooFewToCompare p.reportedName given
  | _ => .noArgument p.reportedName

def checkArity (p : Primitive) (given : Nat) : Except Error Unit :=
  if p.arity.admits given then .ok () else .error (p.arityError given)

end Primitive

end Scheme
