import Scheme.Error
import Scheme.Store.Shown

/-!
# Computations on a store

A computation leaves a store, also where it ends in an error.
-/

namespace Scheme

abbrev Eval := EStateM Error Store

namespace Eval

def lookup (x : Symbol) (env : FrameId) : Eval Value := do
  match (← get).lookup x env with
  | some v => pure v
  | none => throw (.unbound x.name)

def define (x : Symbol) (v : Value) (env : FrameId) : Eval Unit :=
  modify (·.define env x v)

def assign (x : Symbol) (v : Value) (env : FrameId) : Eval Unit := do
  match (← get).find x env with
  | some i => modify (·.define i x v)
  | none => throw (.unboundAssignment x.name)

def newFrame (f : Frame) : Eval FrameId :=
  modifyGet (·.newFrame f)

def newClosure (c : Closure) : Eval Value :=
  modifyGet fun s => let (id, s) := s.newClosure c; (.closure id, s)

/-- A closure that is bound by a definition and has no name takes the name of the variable. -/
def nameValue (v : Value) (x : Symbol) : Eval Unit :=
  match v with
  | .closure c => modify (·.nameClosure c x)
  | _ => pure ()

def emit (text : String) : Eval Unit :=
  modify (·.emit text)

def nextShared : Eval Sharing :=
  modifyGet (·.nextShared)

/-- The result of a computation that does not change the store. -/
def ofExcept {α : Type} : Except Error α → Eval α
  | .ok a => pure a
  | .error e => throw e

/-- Ends in an error that mentions a value, if there is room to go through the value. -/
def fail {α : Type} (room : Nat) (v : Value) (error : Store → Error) : Eval α := do
  ofExcept (v.visit room)
  throw (error (← get))

/-- Ends in an error that shows a value. To show a list takes half as much as to evaluate one. -/
def failShowing {α : Type} (room : Nat) (v : Value) (error : String → Error) : Eval α :=
  fail (2 * room) v fun s => error (s.shown v)

end Eval

/-- What can be asked for: the value of an expression in a frame, or of a procedure's call. -/
inductive Job where
  | expr (e : Value) (env : FrameId)
  | call (procedure : Value) (args : List Value)

end Scheme
