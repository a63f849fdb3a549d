import Scheme.Store
import Scheme.Value.Shown

/-!
# The written form of closures and frames

A chain of frames is shown with names only, since values may lead back to it.
-/

namespace Scheme

def Closure.describe (c : Closure) : String :=
  let params := "(" ++ " ".intercalate (c.params.map Symbol.name) ++ ")"
  match c.name with
  | some x => "#<closure " ++ x.name ++ " " ++ params ++ ">"
  | none => "#<closure " ++ params ++ ">"

namespace Store

def describe (s : Store) (c : ClosureId) : String :=
  (s.closures[c]?.map Closure.describe).getD "#<closure>"

def write (s : Store) (v : Value) : String := v.write s.describe

def display (s : Store) (v : Value) : String := v.display s.describe

def shown (s : Store) (v : Value) : String := v.shown s.describe

/-- The frames from `env` outward. -/
def chain (s : Store) (env : FrameId) : List Frame :=
  match s.frames[env]? with
  | none => []
  | some f =>
    match f.outer with
    | none => [f]
    | some outer => if outer < env then f :: s.chain outer else [f]
termination_by env

def showFrame (s : Store) (env : FrameId) : String :=
  let f := s.frames[env]?.getD {}
  let items := f.bindings.map fun b => b.1.name ++ ": " ++ s.shown b.2
  "\x7b" ++ ", ".intercalate items ++ "\x7d" ++ (if f.outer.isSome then " -> ..." else "")

def showChain (s : Store) (env : FrameId) : String :=
  let frames := (s.chain env).map fun f =>
    "\x7b" ++ ", ".intercalate (f.names.map Symbol.name) ++ "\x7d"
  "<Environment chain: " ++ " -> ".intercalate frames ++ ">"

end Store

end Scheme
