import Scheme.Eval.Call
import Scheme.Keyword

/-!
# Special forms

A form checks its own shape first, except that clauses are looked at as they are reached.
-/

namespace Scheme.Eval

variable (room : Nat) (run : Job → Eval Value)

@[inline]
def quoteForm : List Value → Eval Value
  | [datum] => pure datum
  | _ => throw .quoteCount

@[inline]
def conditionalForm (env : FrameId) : List Value → Eval Value
  | [test, consequent] => do
    let v ← run (.expr test env)
    if v.isTrue then run (.expr consequent env) else pure .unspecified
  | [test, consequent, alternate] => do
    let v ← run (.expr test env)
    if v.isTrue then run (.expr consequent env) else run (.expr alternate env)
  | _ => throw .conditionalCount

/-- Binds a variable in the frame itself. A definition that names a procedure with its parameters
makes a closure of that name. -/
@[inline]
def defineForm (env : FrameId) : List Value → Eval Value
  | [] => throw .defineNothing
  | .list (.sym name :: params) :: body => do
    let c ← makeClosure room (some name) (.list params) body env
    define name c env
    return .unspecified
  | .list _ :: _ => throw .defineProcedureName
  | [.sym name, e] => do
    let v ← run (.expr e env)
    nameValue v name
    define name v env
    return .unspecified
  | .sym _ :: _ => throw .defineCount
  | target :: _ => failShowing room target .defineTarget

@[inline]
def assignForm (env : FrameId) : List Value → Eval Value
  | [.sym name, e] => do
    let v ← run (.expr e env)
    assign name v env
    return .unspecified
  | [target, _] => failShowing room target .assignTarget
  | _ => throw .assignCount

@[inline]
def lambdaForm (env : FrameId) : List Value → Eval Value
  | [] => throw .lambdaNothing
  | params :: body => makeClosure room none params body env

/-- The names and the expressions of bindings, or the first binding that is not of that form. -/
def bindings : List Value → Except Value (List Value × List Value)
  | [] => .ok ([], [])
  | .list [.sym name, e] :: rest => do
    let (names, inits) ← bindings rest
    return (.sym name :: names, e :: inits)
  | binding :: _ => .error binding

/-- Calls a closure of the names with the values of the expressions. -/
@[inline]
def bindForm (env : FrameId) : List Value → Eval Value
  | .list bs :: body =>
    match bindings bs with
    | .error binding => failShowing room binding .malformedBinding
    | .ok (names, inits) => do
      let c ← makeClosure room none (.list names) body env
      let args ← evalEach run env inits
      call room run c args
  | _ => throw .bindNothing

/-- Evaluates the body of the first clause whose test holds. A clause without a body gives the
value of its test. -/
@[specialize]
def chooseForm (env : FrameId) : List Value → Eval Value
  | [] => pure .unspecified
  | .list (test :: body) :: rest =>
    if test.symbol? = some .otherwise then
      if rest.isEmpty then evalSequence run env .unspecified body else throw .elseNotLast
    else do
      let v ← run (.expr test env)
      if v.isTrue then evalSequence run env v body else chooseForm env rest
  | clause :: _ => failShowing room clause .malformedClause

/-- The value of the last operand, unless an earlier one is `#f`. -/
@[specialize]
def andForm (env : FrameId) (last : Value) : List Value → Eval Value
  | [] => pure last
  | e :: rest => do
    let v ← run (.expr e env)
    if v.isTrue then andForm env v rest else pure (.bool false)

/-- The value of the first operand that is not `#f`. -/
@[specialize]
def orForm (env : FrameId) : List Value → Eval Value
  | [] => pure (.bool false)
  | e :: rest => do
    let v ← run (.expr e env)
    if v.isTrue then pure v else orForm env rest

@[inline]
def form (keyword : Keyword) (tail : List Value) (env : FrameId) : Eval Value :=
  match keyword with
  | .quote => quoteForm tail
  | .conditional => conditionalForm run env tail
  | .define => defineForm room run env tail
  | .assign => assignForm room run env tail
  | .lambda => lambdaForm room env tail
  | .begin => evalSequence run env .unspecified tail
  | .bind => bindForm room run env tail
  | .choose => chooseForm room run env tail
  | .and => andForm run env (.bool true) tail
  | .or => orForm run env tail

end Scheme.Eval
