import Scheme.Eval
import Scheme.Reader

/-!
# Sessions

A session keeps one store alive, and reads a text as a whole before evaluating it.
-/

namespace Scheme

structure Session where
  store : Store
  /-- how deeply expressions and calls may be nested -/
  limit : Nat

namespace Session

/-- The limit that a session has unless another one is asked for. -/
def defaultLimit : Nat := 50000

/-- The frame of the global variables. -/
def globalFrame : FrameId := 0

def primitiveBindings : List (Symbol × Value) :=
  Primitive.all.map fun p => (⟨p.name, p.name_ne⟩, .primitive p)

def constantBindings : List (Symbol × Value) :=
  [(⟨"pi", by decide⟩, .num (.float 3.141592653589793)),
    (⟨"e", by decide⟩, .num (.float 2.718281828459045))]

def initialBindings : List (Symbol × Value) :=
  primitiveBindings ++ constantBindings

/-- A new session in which comparisons find these parts to be one object. -/
def start (limit : Nat) (shared : Nat → Sharing) : Session :=
  { store := { frames := #[{ bindings := initialBindings }], shared }, limit }

/-- A new session in which nothing that is compared is one object. -/
def fresh (limit : Nat) : Session := start limit fun _ _ => false

/-- How deeply evaluations may be nested. Each takes two levels of the limit, one for the
expression and one for the form or the call that it is part of. -/
def depth (s : Session) : Nat := s.limit / 2

/-- Runs a computation on the store of the session. -/
def perform {α : Type} (s : Session) (action : Eval α) : Except Error α × Session :=
  match EStateM.run action s.store with
  | .ok a store => (.ok a, { s with store })
  | .error e store => (.error e, { s with store })

theorem limit_perform {α : Type} (s : Session) (action : Eval α) :
    (s.perform action).2.limit = s.limit := by
  unfold perform
  split <;> rfl

/-- Evaluates expressions in turn in a frame and gives the last value. -/
def evalExprs (s : Session) (exprs : List Value) (env : FrameId) : Except Error Value × Session :=
  s.perform (Eval.evalSequence (Eval.run s.depth) env .unspecified exprs)

/-- Evaluates a text and gives the value of its last expression. -/
def eval (s : Session) (source : String) : Except Error Value × Session :=
  match parse s.limit source.toList with
  | .error e => (.error e, s)
  | .ok exprs => s.evalExprs exprs globalFrame

theorem limit_eval (s : Session) (source : String) : (s.eval source).2.limit = s.limit := by
  unfold eval
  split
  · rfl
  · exact s.limit_perform _

/-- Evaluates a text that is one expression, in a frame. -/
def evalOne (s : Session) (source : String) (env : FrameId) : Except Error Value × Session :=
  match parseOne s.limit source.toList with
  | .error e => (.error e, s)
  | .ok e => s.evalExprs [e] env

/-- The text displayed since it was last taken, and the session without it. -/
def takeOutput (s : Session) : String × Session :=
  (s.store.output, { s with store := { s.store with output := "" } })

/-- The global variables that are new or hold another value than at the start, by name. -/
def definitions (s : Session) : List (Symbol × Value) :=
  let bindings := (s.store.frames[globalFrame]?.getD {}).bindings
  let isInitial (b : Symbol × Value) : Bool :=
    initialBindings.any fun i => i.1 == b.1 && i.2.same b.2
  (bindings.filter fun b => !isInitial b).mergeSort fun a b => !(b.1.name < a.1.name)

end Session

end Scheme
