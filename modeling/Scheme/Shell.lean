import Scheme.Report
import Scheme.Session
import Scheme.Text.Line

/-!
# The interactive shell

The shell takes lines of source, which may break off and go on, and two commands.
-/

namespace Scheme

structure Settings where
  prompt : String := "minischeme> "
  /-- the prompt while an expression is pending -/
  continuationPrompt : String := "... "
  color : Bool := true
  /-- log what happens to the error output -/
  verbose : Bool := false
  /-- end the last prompt's line when the session ends -/
  endLine : Bool := false

structure Shell where
  session : Session
  settings : Settings
  reporter : Reporter
  /-- the prompt for the next line -/
  prompt : String
  /-- source of an expression that is not complete yet -/
  pending : List Char := []
  ended : Bool := false

/-- What was written in answer to some input. -/
structure Reply where
  out : String := ""
  err : String := ""

def Reply.append (a b : Reply) : Reply := ⟨a.out ++ b.out, a.err ++ b.err⟩

instance : Append Reply := ⟨Reply.append⟩

/-- A log line of one part of the program. -/
def logLine (part text : String) : String :=
  "DEBUG minischeme." ++ part ++ ": " ++ text ++ "\n"

/-- A log line, if what happens is logged. -/
def Settings.log (s : Settings) (part text : String) : String :=
  if s.verbose then logLine part text else ""

/-- Evaluates expressions in turn and prints each value that is not unspecified, if there is room
to write it. -/
def Eval.printEach (depth : Nat) (env : FrameId) : List Value → Eval Unit
  | [] => pure ()
  | e :: rest => do
    let v ← evaluate depth e env
    if !v.isUnspecified then
      ofExcept (v.visit depth)
      emit ((← get).write v ++ "\n")
    printEach depth env rest

namespace Shell

def intro : String := "minischeme :: type 'help' for more information, Ctrl-D to exit."

def help : String :=
  "Enter Scheme expressions, e.g. (define (square x) (* x x)) then (square 4).\n" ++
  "Expressions may span several lines; input continues until parentheses balance.\n" ++
  "Definitions persist for the whole session. Ctrl-D exits.\n"

def start (limit : Nat) (shared : Nat → Sharing) (settings : Settings) : Shell :=
  { session := .start limit shared, settings, reporter := { color := settings.color },
    prompt := settings.prompt }

def fresh (limit : Nat) (settings : Settings) : Shell := start limit (fun _ _ => false) settings

/-- Reports an error. A log has the line that says so, but not the trace of where the error arose,
which would follow it. -/
def fail (s : Shell) (e : Error) : Reply × Shell :=
  let (text, reporter) := s.reporter.handle e.condition
  let log := s.settings.log "reporting" ("reported " ++ e.condition.title)
  ({ err := text.getD "" ++ log }, { s with reporter })

/-- Takes what was displayed as output. -/
def takeOutput (s : Shell) : Reply × Shell :=
  let (out, session) := s.session.takeOutput
  ({ out }, { s with session })

/-- Evaluates expressions and prints their values. -/
def evalExprs (s : Shell) (exprs : List Value) : Reply × Shell :=
  let (result, session) :=
    s.session.perform (Eval.printEach s.session.depth Session.globalFrame exprs)
  let (output, s) := { s with session }.takeOutput
  match result with
  | .ok () => (output, s)
  | .error e => let (report, s) := s.fail e; (output ++ report, s)

/-- Takes a line of source. While the expression goes on, the prompt is the other one. -/
def readSource (s : Shell) (line : List Char) : Reply × Shell :=
  let source := s.pending ++ line ++ ['\n']
  let s := { s with pending := [], prompt := s.settings.prompt }
  match parse s.session.limit source with
  | .ok exprs =>
    let log := s.settings.log "shell" ("read " ++ writeInt exprs.length ++ " expression(s)")
    let (reply, s) := s.evalExprs exprs
    ({ err := log } ++ reply, s)
  | .error e =>
    if e.isIncomplete then
      ({}, { s with pending := source, prompt := s.settings.continuationPrompt })
    else s.fail e

/-- Ends the session. An expression that is still pending is an error. -/
def finish (s : Shell) : Reply × Shell :=
  let (report, s) :=
    if s.pending.isEmpty then ({}, s)
    else
      let (err, reporter) :=
        s.reporter.report (ErrorKind.incomplete.title ++ ": Unexpected end of input")
      ({ err }, { s with reporter, pending := [] })
  (report ++ { out := if s.settings.endLine then "\n" else "" }, { s with ended := true })

/-- Takes a line. -/
def feed (s : Shell) (line : List Char) : Reply × Shell :=
  let command := Text.trim line
  if command = ['E', 'O', 'F'] then s.finish
  else if !s.pending.isEmpty then s.readSource line
  else if command.isEmpty then ({}, s)
  else if command = ['h', 'e', 'l', 'p'] then ({ out := help }, s)
  else s.readSource line

/-- Prompts for each line and takes it, until the session has ended or the lines run out. -/
def feedAll (s : Shell) : List (List Char) → Reply × Shell
  | [] => ({}, s)
  | line :: rest =>
    let (reply, next) := s.feed (Text.dropLineEnd line)
    let reply := { out := s.prompt } ++ reply
    if next.ended then (reply, next)
    else
      let (replies, last) := next.feedAll rest
      (reply ++ replies, last)

/-- Prompts for a line that does not come, and ends the session. -/
def endInput (s : Shell) : Reply × Shell :=
  if s.ended then ({}, s)
  else
    let (reply, last) := s.finish
    ({ out := s.prompt } ++ reply, last)

/-- The whole session on an input. -/
def converse (s : Shell) (input : List Char) : Reply × Shell :=
  let (replies, s) := s.feedAll (Text.lines input)
  let (reply, s) := s.endInput
  (replies ++ reply, s)

end Shell

end Scheme
