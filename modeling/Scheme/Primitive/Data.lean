import Scheme.Primitive.Arity
import Scheme.Value

/-!
# Primitives on data

What takes a list apart or puts one together gives a new list.
-/

namespace Scheme.Primitive

/-- The items of an argument that has to be a list. -/
def items (describe : ClosureId → String) (p : Primitive) (v : Value) :
    Except Error (List Value) :=
  match v with
  | .list items => .ok items
  | v => .error (.notAList p.reportedName (v.write describe))

def concatenate (describe : ClosureId → String) : List Value → Except Error (List Value)
  | [] => .ok []
  | v :: vs => do
    let first ← items describe .append v
    let rest ← concatenate describe vs
    return first ++ rest

/-- The result of a primitive that only looks at its arguments. -/
def onData (describe : ClosureId → String) : Primitive → List Value → Except Error Value
  | .not, [v] => .ok (.bool !v.isTrue)
  | .list, args => .ok (.list args)
  | .car, [v] => do
    match ← items describe .car v with
    | [] => .error (.emptyList (name .car))
    | head :: _ => .ok head
  | .cdr, [v] => do
    match ← items describe .cdr v with
    | [] => .error (.emptyList (name .cdr))
    | _ :: tail => .ok (.list tail)
  | .cons, [head, v] => do
    let tail ← items describe .cons v
    return .list (head :: tail)
  | .append, args => do return .list (← concatenate describe args)
  | .length, [v] => do
    let items ← items describe .length v
    return .num (.int items.length)
  | .empty, [v] => .ok (.bool (v.list?.any List.isEmpty))
  | .null, [v] => .ok (.bool (v.list?.any List.isEmpty))
  | p, args => .error (p.arityError args.length)

end Scheme.Primitive
