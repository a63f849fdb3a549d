import Scheme.Number.Basic

/-!
# The order of numbers

Numbers are compared by their exact values, and nothing is rounded.
-/

namespace Scheme

/-- A place on the number line, with both ends. -/
inductive Place where
  | bottom
  | at (value : Rat)
  | top
deriving DecidableEq

namespace Place

def lt : Place → Place → Bool
  | .bottom, .bottom => false
  | .bottom, _ => true
  | .at p, .at q => p < q
  | .at _, .top => true
  | .at _, .bottom => false
  | .top, _ => false

def le (p q : Place) : Bool := !q.lt p

end Place

/-- The place of a number, or none for what is not a number. -/
def Number.place? : Number → Option Place
  | .int n => some (.at n)
  | .float x =>
    if x.isNaN then none
    else if x.isInf then some (if signBit x then .bottom else .top)
    else some (.at (exactValue x))

/-- The relations that numbers are compared by. -/
inductive Relation where
  | lt
  | le
  | gt
  | ge
  | eq
deriving DecidableEq

namespace Relation

def test : Relation → Place → Place → Bool
  | .lt, p, q => p.lt q
  | .le, p, q => p.le q
  | .gt, p, q => q.lt p
  | .ge, p, q => q.le p
  | .eq, p, q => p.le q && q.le p

def holds (r : Relation) (a b : Number) : Bool :=
  match a.place?, b.place? with
  | some p, some q => r.test p q
  | _, _ => false

/-- The relation holds between each number and the next. -/
def chain (r : Relation) : List Number → Bool
  | a :: b :: rest => r.holds a b && r.chain (b :: rest)
  | _ => true

end Relation

end Scheme
