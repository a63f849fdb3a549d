import Scheme.Error
import Scheme.Store.Shown

/-!
# Access by a name that is data

Only a symbol can be bound, so what is no symbol can be neither defined nor found.
-/

namespace Scheme.Store

def defineNamed (s : Store) (env : FrameId) (name v : Value) : Except Error Store :=
  match name with
  | .sym x => .ok (s.define env x v)
  | name => .error (.notASymbol (s.shown name))

/-- Defines pair after pair, up to the first name that cannot be defined. -/
def defineAllNamed (s : Store) (env : FrameId) : List (Value × Value) → Option Error × Store
  | [] => (none, s)
  | (name, v) :: rest =>
    match s.defineNamed env name v with
    | .ok s => s.defineAllNamed env rest
    | .error e => (some e, s)

def findNamed (s : Store) (name : Value) (env : FrameId) : Option FrameId :=
  name.symbol?.bind (s.find · env)

def lookupNamed (s : Store) (name : Value) (env : FrameId) : Except Error Value :=
  match name.symbol?.bind (s.lookup · env) with
  | some v => .ok v
  | none => .error (.unbound (name.shownAsName s.describe))

def assignNamed (s : Store) (name v : Value) (env : FrameId) : Except Error Store :=
  match name.symbol?.bind (s.assign? · v env) with
  | some s => .ok s
  | none => .error (.unboundAssignment (name.shownAsName s.describe))

end Scheme.Store
