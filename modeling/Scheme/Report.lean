import Scheme.Error

/-!
# Reporting errors

What stops a program is announced on a line of its own.
-/

namespace Scheme

inductive Condition where
  | fault (kind : ErrorKind) (message : String)
  | depthExceeded
  | interrupted
  /-- not for the reporter to handle -/
  | foreign
deriving DecidableEq

namespace Condition

/-- The name that logs use. -/
def title : Condition → String
  | .fault kind _ => kind.title
  | .depthExceeded => "RecursionError"
  | .interrupted => "KeyboardInterrupt"
  | .foreign => ""

/-- The text that a condition is announced with, if it is announced. -/
def announcement? : Condition → Option String
  | .fault kind message => some (kind.title ++ ": " ++ message)
  | .depthExceeded => some Error.depthExceeded.message
  | .interrupted => some "interrupted"
  | .foreign => none

end Condition

def Error.condition (e : Error) : Condition :=
  match e, e.kind? with
  | .depthExceeded, _ => .depthExceeded
  | e, some kind => .fault kind e.message
  | _, none => .foreign

structure Reporter where
  color : Bool
  failed : Bool := false

namespace Reporter

/-- The line that announces a message, in bold red up to the message if it is coloured. -/
def line (r : Reporter) (message : String) : String :=
  (if r.color then "\x1b[1m\x1b[31merror: \x1b[0m" else "error: ") ++ message ++ "\n"

/-- Announces a message. -/
def report (r : Reporter) (message : String) : String × Reporter :=
  (r.line message, { r with failed := true })

/-- Announces a condition, unless it is not for the reporter to handle. -/
def handle (r : Reporter) (c : Condition) : Option String × Reporter :=
  match c.announcement? with
  | some message => let (text, r) := r.report message; (some text, r)
  | none => (none, r)

end Reporter

end Scheme
