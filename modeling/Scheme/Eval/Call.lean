import Scheme.Eval.Closure
import Scheme.Primitive.Data
import Scheme.Primitive.Numeric

/-!
# Calls

Every call goes through one function, and what it goes through has the room left inside.
-/

namespace Scheme.Eval

variable (room : Nat) (run : Job → Eval Value)

/-- Calls a procedure with each item on its own, from left to right. -/
@[specialize]
def callEach (procedure : Value) : List Value → Eval (List Value)
  | [] => pure []
  | v :: rest => do
    let result ← run (.call procedure [v])
    let results ← callEach procedure rest
    return result :: results

@[inline]
def callPrimitive (p : Primitive) (args : List Value) : Eval Value := do
  let s ← get
  match p, args with
  | .map, [procedure, v] => do
    let items ← ofExcept (Primitive.items s.describe .map v)
    return .list (← callEach run procedure items)
  | .apply, [procedure, v] => do
    let items ← ofExcept (Primitive.items s.describe .apply v)
    run (.call procedure items)
  | .equal, [a, b] => do
    let one ← nextShared
    return .bool (← ofExcept (a.isEqual one room [] b))
  | .display, [v] => do
    ofExcept (v.visit room)
    emit (s.display v)
    return .unspecified
  | .newline, [] => do
    emit "\n"
    return .unspecified
  | p, args =>
    if p.isNumeric then ofExcept (p.callNumeric s.describe room args)
    else ofExcept (p.onData s.describe args)

/-- Calls a value with arguments. What is no procedure cannot be called. -/
@[inline]
def call (procedure : Value) (args : List Value) : Eval Value := do
  match procedure with
  | .primitive p => callPrimitive room run p args
  | .closure c =>
    match (← get).closures[c]? with
    | some closure => enter run closure args
    | none => fail room procedure fun s => .notApplicable (s.write procedure)
  | _ => fail room procedure fun s => .notApplicable (s.write procedure)

end Scheme.Eval
