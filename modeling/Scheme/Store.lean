import Scheme.Value.Equal

/-!
# The store

Frames and closures are known by their numbers, in the order in which they were made.
Objects are not kept, but only what each comparison will find to be one.
-/

namespace Scheme

abbrev FrameId := Nat

/-- Variables and their values, in the order in which they were first defined. -/
structure Frame where
  outer : Option FrameId := none
  bindings : List (Symbol × Value) := []

/-- A procedure that was written as an expression. Its frame is the one it was made in. -/
structure Closure where
  name : Option Symbol := none
  params : List Symbol
  body : List Value
  env : FrameId

structure Store where
  frames : Array Frame := #[]
  closures : Array Closure := #[]
  output : String := ""
  /-- what is one object in each of the comparisons that are made in a session -/
  shared : Nat → Sharing := fun _ _ => false
  /-- how many comparisons were made -/
  comparisons : Nat := 0

/-! ## Frames -/

namespace Frame

def names (f : Frame) : List Symbol := f.bindings.map Prod.fst

def value? (f : Frame) (x : Symbol) : Option Value :=
  (f.bindings.find? fun b => b.1 == x).map Prod.snd

/-- Bindings with `x` bound to `v`: in its place if it is bound, and else behind the others. -/
def put (x : Symbol) (v : Value) : List (Symbol × Value) → List (Symbol × Value)
  | [] => [(x, v)]
  | (y, w) :: rest => if y = x then (x, v) :: rest else (y, w) :: put x v rest

def define (f : Frame) (x : Symbol) (v : Value) : Frame :=
  { f with bindings := put x v f.bindings }

/-- A frame for a call: each parameter bound to its argument. -/
def ofArgs (outer : FrameId) (params : List Symbol) (args : List Value) : Frame :=
  (params.zip args).foldl (fun f b => f.define b.1 b.2) { outer := some outer }

end Frame

/-! ## The store -/

namespace Store

/-- Adds a frame and gives its number. -/
def newFrame (s : Store) (f : Frame) : FrameId × Store :=
  (s.frames.size, { s with frames := s.frames.push f })

/-- Adds a closure and gives its number. -/
def newClosure (s : Store) (c : Closure) : ClosureId × Store :=
  (s.closures.size, { s with closures := s.closures.push c })

/-- Binds a variable in the frame itself. -/
def define (s : Store) (env : FrameId) (x : Symbol) (v : Value) : Store :=
  { s with frames := s.frames.modify env (·.define x v) }

/-- The innermost frame that binds a variable, from `env` outward, and the value there. -/
def search (s : Store) (x : Symbol) (env : FrameId) : Option (FrameId × Value) :=
  match s.frames[env]? with
  | none => none
  | some f =>
    match f.value? x with
    | some v => some (env, v)
    | none =>
      match f.outer with
      | none => none
      | some outer => if outer < env then s.search x outer else none
termination_by env

def find (s : Store) (x : Symbol) (env : FrameId) : Option FrameId :=
  (s.search x env).map Prod.fst

def lookup (s : Store) (x : Symbol) (env : FrameId) : Option Value :=
  (s.search x env).map Prod.snd

/-- Gives a variable that is bound a new value, in the innermost frame that binds it. -/
def assign? (s : Store) (x : Symbol) (v : Value) (env : FrameId) : Option Store :=
  (s.find x env).map fun i => s.define i x v

/-- Gives a closure that has no name yet this one. -/
def nameClosure (s : Store) (c : ClosureId) (x : Symbol) : Store :=
  { s with closures := s.closures.modify c fun k => { k with name := k.name.or (some x) } }

def emit (s : Store) (text : String) : Store :=
  { s with output := s.output ++ text }

/-- Starts a comparison and gives what is one object in it. -/
def nextShared (s : Store) : Sharing × Store :=
  (s.shared s.comparisons, { s with comparisons := s.comparisons + 1 })

end Store

end Scheme
