import Scheme.Text.Quoted
import Scheme.Value

/-!
# Values in messages

A message shows a malformed expression in a form that is not meant to be read back.
-/

namespace Scheme.Value

mutual

def shown (describe : ClosureId → String) : Value → String
  | .absent => "None"
  | .unspecified => "#<unspecified>"
  | .bool true => "True"
  | .bool false => "False"
  | .num n => n.write
  | .str s => Text.quoted s
  | .sym x => "<Symbol " ++ x.name ++ ">"
  | .list items => "[" ++ ", ".intercalate (shownAll describe items) ++ "]"
  | .primitive p => "#<builtin " ++ p.name ++ ">"
  | .closure c => describe c

def shownAll (describe : ClosureId → String) : List Value → List String
  | [] => []
  | v :: vs => v.shown describe :: shownAll describe vs

end

/-- How a message names a variable: by its bare name, or by whatever stands in its place. -/
def shownAsName (describe : ClosureId → String) : Value → String
  | .sym x => x.name
  | .str s => s
  | v => v.shown describe

end Scheme.Value
