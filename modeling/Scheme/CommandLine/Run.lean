import Scheme.CommandLine.Folder
import Scheme.CommandLine.Option
import Scheme.Shell

/-!
# Running the program

With a file the program evaluates it; without one it is a shell on its input.
-/

namespace Scheme.CommandLine

def versionText : String := "minischeme 0.1.0\n"

def usageText : String :=
  "usage: minischeme [-h] [-v] [--no-color] [--recursion-limit RECURSION_LIMIT]\n" ++
  "                  [--version]\n" ++
  "                  [file]\n"

def helpText : String :=
  usageText ++
  "\n" ++
  "A small Scheme interpreter.\n" ++
  "\n" ++
  "positional arguments:\n" ++
  "  file                  source file to run (if omitted, starts the interactive\n" ++
  "                        REPL)\n" ++
  "\n" ++
  "options:\n" ++
  "  -h, --help            show this help message and exit\n" ++
  "  -v, --verbose         enable debug logging\n" ++
  "  --no-color            do not colour error messages\n" ++
  "  --recursion-limit RECURSION_LIMIT\n" ++
  "                        host recursion limit for deeply recursive programs\n" ++
  "                        (default: 50000)\n" ++
  "  --version             show program's version number and exit\n"

/-- What a run wrote, and its exit status. -/
structure Outcome where
  exit : Nat
  reply : Reply := {}

/-- The least limit: asking for a lower one changes nothing. -/
def leastLimit : Nat := 1000

namespace Options

def limit (o : Options) : Nat := max leastLimit o.recursionLimit.toNat

def settings (o : Options) : Settings :=
  { color := o.color, verbose := o.verbose, endLine := true }

end Options

/-- Evaluates the text of a file. -/
def evalFile (o : Options) (name : String) (source : List Char) : Outcome :=
  let log := o.settings.log
  let loaded := log "interpreter" ("loaded " ++ name ++ " (" ++ writeInt source.length ++ " chars)")
  let shell := Shell.fresh o.limit o.settings
  match parse o.limit source with
  | .error e =>
    let (report, _) := shell.fail e
    { exit := 1, reply := { err := loaded } ++ report }
  | .ok exprs =>
    let counted :=
      log "interpreter" ("evaluating " ++ writeInt exprs.length ++ " expression(s)")
    let (result, session) := shell.session.evalExprs exprs Session.globalFrame
    let (output, shell) := { shell with session }.takeOutput
    let reply := { err := loaded ++ counted } ++ output
    match result.bind fun v => (v.visit session.depth).map fun _ => v with
    | .ok v =>
      let out := if v.isUnspecified then "" else session.store.write v ++ "\n"
      { exit := 0, reply := reply ++ { out } }
    | .error e =>
      let (report, _) := shell.fail e
      { exit := 1, reply := reply ++ report }

/-- Reports that a file cannot be read. -/
def reportUnreadable (o : Options) (name : String) (fault : ReadFault) : Outcome :=
  let (err, _) :=
    { color := o.color : Reporter }.report ("cannot read " ++ name ++ ": " ++ fault.message name)
  { exit := 1, reply := { err } }

/-- Runs a file, given its bytes or why there are none. -/
def runFile (o : Options) (name : String) (content : Except ReadFault ByteArray) : Outcome :=
  let started : Reply := { err := o.settings.log "cli" ("running " ++ name) }
  let outcome :=
    match content with
    | .error fault => reportUnreadable o name fault
    | .ok bytes =>
      match Text.Utf8.decode bytes with
      | .error fault => reportUnreadable o name (.undecodable fault)
      | .ok text => evalFile o name (Text.unifyLineEnds text.toList)
  { outcome with reply := started ++ outcome.reply }

/-- The shell that a run without a file is, and what it writes first. -/
def startShell (o : Options) : Reply × Shell :=
  ({ err := o.settings.log "cli" "starting REPL" }, .fresh o.limit o.settings)

/-- Runs the shell on an input that ends, or is interrupted when it has been read. -/
def runShell (o : Options) (input : String) (interrupted : Bool) : Outcome :=
  let (started, shell) := startShell o
  let (replies, shell) := shell.feedAll (Text.lines (Text.unifyLineEnds input.toList))
  if interrupted && !shell.ended then
    { exit := 130, reply := started ++ replies ++ { out := shell.prompt ++ "\n" } }
  else
    let (reply, _) := shell.endInput
    { exit := 0, reply := started ++ replies ++ reply }

/-- The answer to a command line that starts nothing. -/
def usageOutcome (e : UsageError) : Outcome :=
  { exit := 2, reply := { err := usageText ++ "minischeme: error: " ++ e.message ++ "\n" } }

/-- A whole run in a folder, on an input. -/
def run (folder : Folder) (args : List String) (input : String) (interrupted : Bool) : Outcome :=
  match request args with
  | .error e => usageOutcome e
  | .ok .help => { exit := 0, reply := { out := helpText } }
  | .ok .version => { exit := 0, reply := { out := versionText } }
  | .ok (.start o) =>
    match o.file with
    | some name => runFile o name (folder.read name)
    | none => runShell o input interrupted

end Scheme.CommandLine
