import Scheme.Eval.Form

/-!
# Evaluation

Evaluation is one step, repeated to a limited depth; entering a list takes a level, too.
-/

namespace Scheme

namespace Eval

/-- Does a job, given how to do the jobs that are part of it and how many levels are left. -/
@[inline]
def step (room : Nat) (run : Job → Eval Value) : Job → Eval Value
  | .call procedure args => call room run procedure args
  | .expr e env =>
    match e with
    | .sym x => lookup x env
    | .bool _ | .num _ | .str _ => pure e
    | .list [] => throw .emptyCombination
    | .list (head :: tail) =>
      match head.symbol?.bind Keyword.ofSymbol? with
      | some keyword => form room run keyword tail env
      | none => do
        let procedure ← run (.expr head env)
        let args ← evalEach run env tail
        call room run procedure args
    | _ => failShowing room e .notEvaluable

/-- Does a job in which nothing is nested deeper than `depth` levels. -/
def run : Nat → Job → Eval Value
  | 0, _ => throw .depthExceeded
  | depth + 1, job => step depth (run depth) job

end Eval

/-- The value of an expression in a frame. -/
def evaluate (depth : Nat) (e : Value) (env : FrameId) : Eval Value :=
  Eval.run depth (.expr e env)

end Scheme
