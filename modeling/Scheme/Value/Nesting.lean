import Scheme.Error
import Scheme.Value

/-!
# How deeply values are nested

What goes through a value takes a level of the limit for every list that it enters.
-/

namespace Scheme.Value

mutual

/-- How many lists there are around the innermost part. -/
def nesting : Value → Nat
  | .list items => nestingAll items + 1
  | _ => 0

def nestingAll : List Value → Nat
  | [] => 0
  | v :: vs => max v.nesting (nestingAll vs)

end

mutual

/-- Goes through a value down to its innermost part, if there is room. -/
def visit (room : Nat) : Value → Except Error Unit
  | .list items =>
    match room with
    | 0 => .error .depthExceeded
    | room + 1 => visitAll room items
  | _ => .ok ()

def visitAll (room : Nat) : List Value → Except Error Unit
  | [] => .ok ()
  | v :: vs => do
    v.visit room
    visitAll room vs

end

mutual

theorem visit_eq (room : Nat) (v : Value) :
    v.visit room = if v.nesting ≤ room then .ok () else .error .depthExceeded := by
  cases v with
  | list items =>
    cases room with
    | zero => simp [visit, nesting]
    | succ room => simp only [visit, nesting, Nat.succ_le_succ_iff, visitAll_eq room items]
  | _ => simp [visit, nesting]

theorem visitAll_eq (room : Nat) (vs : List Value) :
    visitAll room vs = if nestingAll vs ≤ room then .ok () else .error .depthExceeded := by
  cases vs with
  | nil => simp [visitAll, nestingAll]
  | cons v vs =>
    simp only [visitAll, nestingAll, visit_eq room v, visitAll_eq room vs, Nat.max_le]
    by_cases h : v.nesting ≤ room
    · simp [h, bind, Except.bind]
    · simp [h, bind, Except.bind]

end

end Scheme.Value
