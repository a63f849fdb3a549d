import Scheme.Value.Nesting

/-!
# Comparing values

A comparison is told which parts are one object, and asks that before it looks inside.
-/

namespace Scheme

/-- Which parts of two values are one object. A part is known by its place: its position in the
list that it is an item of, the position of that list in the one around it, and so on. -/
abbrev Sharing := List Nat → Bool

namespace Value

mutual

/-- Whether two values at a place are equal, if there is room to find out. -/
def isEqual (one : Sharing) (room : Nat) (place : List Nat) (a b : Value) : Except Error Bool :=
  if one place && a == b then .ok true
  else
    match a, b with
    | .list as, .list bs =>
      if as.length = bs.length then
        match room with
        | 0 => .error .depthExceeded
        | room + 1 => areEqual one room place 0 as bs
      else .ok false
    | a, b => .ok (a.same b)

/-- The items of two lists at a place, from a position on. -/
def areEqual (one : Sharing) (room : Nat) (place : List Nat) (position : Nat) :
    List Value → List Value → Except Error Bool
  | a :: as, b :: bs => do
    if ← isEqual one room (position :: place) a b then
      areEqual one room place (position + 1) as bs
    else return false
  | _, _ => .ok true

end

end Value

end Scheme
