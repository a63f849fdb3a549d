import Scheme.Eval.Basic

/-! # Making and calling closures -/

namespace Scheme.Eval

/-- The symbols that a list consists of, if it consists of symbols. -/
def symbols? : List Value → Option (List Symbol)
  | [] => some []
  | .sym x :: rest => (symbols? rest).map (x :: ·)
  | _ :: _ => none

/-- A parameter list has only symbols, and none twice. -/
def parameters (room : Nat) (e : Value) : Eval (List Symbol) :=
  match e.list?.bind symbols? with
  | none => failShowing room e .parameterList
  | some params => if params.Nodup then pure params else throw (.duplicateParameter params)

def makeClosure (room : Nat) (name : Option Symbol) (params : Value) (body : List Value)
    (env : FrameId) : Eval Value := do
  let params ← parameters room params
  newClosure { name, params, body, env }

/-- Makes the frame of a call, inside the frame that the closure was made in. -/
def callFrame (c : Closure) (args : List Value) : Eval FrameId :=
  if c.params.length = args.length then newFrame (.ofArgs c.env c.params args)
  else throw (.closureArity c.name c.params.length args.length)

variable (run : Job → Eval Value)

/-- Evaluates expressions one after the other and gives their values. -/
@[specialize]
def evalEach (env : FrameId) : List Value → Eval (List Value)
  | [] => pure []
  | e :: rest => do
    let v ← run (.expr e env)
    let vs ← evalEach env rest
    return v :: vs

/-- Evaluates expressions one after the other and gives the value of the last, or `last` if there
are none. -/
@[specialize]
def evalSequence (env : FrameId) (last : Value) : List Value → Eval Value
  | [] => pure last
  | e :: rest => do
    let v ← run (.expr e env)
    evalSequence env v rest

/-- Calls a closure: its body is evaluated in the frame of the call. -/
@[inline]
def enter (c : Closure) (args : List Value) : Eval Value := do
  let env ← callFrame c args
  evalSequence run env .unspecified c.body

end Scheme.Eval
