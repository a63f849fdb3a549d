import Scheme.Number.Function
import Scheme.Number.Order

/-!
# Primitive procedures

The procedures that a session starts with, two of which may do the same.
-/

namespace Scheme

inductive Primitive where
  | add
  | sub
  | mul
  | div
  | pow
  | expt
  | compare (relation : Relation)
  | not
  | equal
  | list
  | car
  | cdr
  | cons
  | append
  | length
  | empty
  | null
  | map
  | apply
  | math (function : MathFunction)
  | display
  | newline
deriving DecidableEq

def Relation.name : Relation → String
  | .lt => "<"
  | .le => "<="
  | .gt => ">"
  | .ge => ">="
  | .eq => "="

namespace Primitive

def name : Primitive → String
  | .add => "+"
  | .sub => "-"
  | .mul => "*"
  | .div => "/"
  | .pow => "pow"
  | .expt => "expt"
  | .compare r => r.name
  | .not => "not"
  | .equal => "equal?"
  | .list => "list"
  | .car => "car"
  | .cdr => "cdr"
  | .cons => "cons"
  | .append => "append"
  | .length => "length"
  | .empty => "empty?"
  | .null => "null?"
  | .map => "map"
  | .apply => "apply"
  | .math f => f.name
  | .display => "display"
  | .newline => "newline"

/-- All primitives, in the order in which a session defines them. -/
def all : List Primitive :=
  [.add, .sub, .mul, .div, .pow, .expt, .compare .lt, .compare .le, .compare .gt, .compare .ge,
    .compare .eq, .not, .equal, .list, .car, .cdr, .cons, .append, .length, .empty, .null, .map,
    .apply, .math .sin, .math .cos, .math .tan, .math .asin, .math .acos, .math .atan, .math .exp,
    .math .log, .math .log10, .math .sqrt, .display, .newline]

theorem mem_all (p : Primitive) : p ∈ all := by
  cases p with
  | compare r => cases r <;> decide
  | math f => cases f <;> decide
  | _ => decide

theorem name_ne (p : Primitive) : p.name ≠ "" := by
  cases p with
  | compare r => cases r <;> decide
  | math f => cases f <;> decide
  | _ => decide

/-- The primitive of a name. -/
def ofName? (name : String) : Option Primitive :=
  all.find? fun p => p.name == name

end Primitive

end Scheme
