import Scheme.Text.Blank
import Scheme.Text.Digit
import Scheme.Number.Numeral
import Scheme.Text.Quoted

/-!
# Options

Long options may be shortened, short ones written together, and after a double dash there are none.
-/

namespace Scheme.CommandLine

open Scheme.Text

inductive Flag where
  | help
  | verbose
  | noColor
  | recursionLimit
  | version
deriving DecidableEq

namespace Flag

/-- How options are spelled, in the order in which candidates are listed. -/
def spellings : List (String × Flag) :=
  [("-h", .help), ("--help", .help), ("-v", .verbose), ("--verbose", .verbose),
    ("--no-color", .noColor), ("--recursion-limit", .recursionLimit), ("--version", .version)]

def ofSpelling? (spelling : String) : Option Flag :=
  (spellings.find? fun s => s.1 == spelling).map Prod.snd

/-- How errors name an option: by all its spellings. -/
def title (f : Flag) : String :=
  "/".intercalate ((spellings.filter fun s => s.2 == f).map Prod.fst)

end Flag

/-- A command line that cannot be understood. -/
inductive UsageError where
  | ambiguous (word : String) (candidates : List String)
  | valueMissing (flag : Flag)
  | badNumber (flag : Flag) (value : String)
  | unwantedValue (flag : Flag) (value : String)
  | unrecognized (words : List String)

def UsageError.message : UsageError → String
  | .ambiguous word candidates =>
    "ambiguous option: " ++ word ++ " could match " ++ ", ".intercalate candidates
  | .valueMissing flag => "argument " ++ flag.title ++ ": expected one argument"
  | .badNumber flag value =>
    "argument " ++ flag.title ++ ": invalid int value: " ++ quoted value
  | .unwantedValue flag value =>
    "argument " ++ flag.title ++ ": ignored explicit argument " ++ quoted value
  | .unrecognized words => "unrecognized arguments: " ++ " ".intercalate words

/-! ## Words -/

/-- What a word of the command line is. -/
inductive Word where
  | plain (text : String)
  | separator
  | option (flag : Flag) (isLong : Bool) (value : Option String)
  /-- spelled like an option, but none -/
  | unknown (text : String)

namespace Word

/-- A word that is no option, as it stands on the command line. -/
def text : Word → String
  | .plain text => text
  | .unknown text => text
  | .separator => "--"
  | .option .. => ""

def isSeparator : Word → Bool
  | .separator => true
  | _ => false

/-- Spelled like an option. -/
def isOption : Word → Bool
  | .option .. => true
  | .unknown _ => true
  | _ => false

end Word

/-- Splits at the first equals sign. -/
def splitValue (s : List Char) : List Char × Option (List Char) :=
  match s.dropWhile (· ≠ '=') with
  | [] => (s, none)
  | _ :: value => (s.takeWhile (· ≠ '='), some value)

/-- A dash and digits, which may have a point before or among them. A line feed at the end does
not count. -/
def isNegativeNumber (s : List Char) : Bool :=
  match if s.getLast? = some '\n' then s.dropLast else s with
  | '-' :: rest =>
    match digitRun rest with
    | (_ :: _, []) => true
    | (_, '.' :: part) => !part.isEmpty && part.all fun c => (digit? c).isSome
    | _ => false
  | _ => false

/-- The options that a word may be short for, with the value behind it. -/
def candidates (s : List Char) : List (String × Flag × Option (List Char)) :=
  match s with
  | '-' :: '-' :: _ =>
    let (spelling, value) := splitValue s
    Flag.spellings.filterMap fun o =>
      if spelling.isPrefixOf o.1.toList then some (o.1, o.2, value) else none
  | _ =>
    Flag.spellings.filterMap fun o =>
      if o.1.toList = s.take 2 then some (o.1, o.2, some (s.drop 2))
      else if s.isPrefixOf o.1.toList then some (o.1, o.2, none)
      else none

def isLongSpelling (spelling : String) : Bool :=
  spelling.toList.take 2 == ['-', '-']

/-- What a word that starts with a dash and is no option as it stands may be. -/
def classifyDashed (word : String) : Except UsageError Word :=
  let s := word.toList
  match candidates s with
  | [(spelling, flag, value)] =>
    .ok (.option flag (isLongSpelling spelling) (value.map String.ofList))
  | [] =>
    if isNegativeNumber s || s.contains ' ' then .ok (.plain word) else .ok (.unknown word)
  | several => .error (.ambiguous word (several.map (·.1)))

def classify (word : String) : Except UsageError Word :=
  let s := word.toList
  match s with
  | '-' :: _ :: _ =>
    match Flag.ofSpelling? word with
    | some flag => .ok (.option flag (isLongSpelling word) none)
    | none =>
      let (spelling, value) := splitValue s
      match Flag.ofSpelling? (String.ofList spelling), value with
      | some flag, some value =>
        .ok (.option flag (isLongSpelling (String.ofList spelling)) (some (String.ofList value)))
      | _, _ => classifyDashed word
  | _ => .ok (.plain word)

/-- The words in turn. The first double dash is a separator, and after it all are plain. -/
def classifyAll : List String → Except UsageError (List Word)
  | [] => .ok []
  | word :: rest => do
    if word = "--" then return .separator :: rest.map .plain
    let w ← classify word
    let ws ← classifyAll rest
    return w :: ws

/-! ## Values -/

/-- The digits of a whole number, between which single underscores may stand. -/
def digitGroups? (s : List Char) : Option (List Nat) :=
  let rec after : List Char → Option (List Nat)
    | [] => some []
    | '_' :: c :: rest => do return (← digit? c) :: (← after rest)
    | c :: rest => do return (← digit? c) :: (← after rest)
  match s with
  | [] => none
  | c :: rest => do return (← digit? c) :: (← after rest)

/-- A blank that may stand around a number: any but the information separators. -/
def isPadding (c : Char) : Bool :=
  isBlank c && !(0x1C ≤ c.toNat && c.toNat ≤ 0x1F)

/-- A whole number: blanks around it do not count, and it may have a sign. -/
def wholeNumber? (value : String) : Option Int := do
  let (negative, rest) := Numeral.splitSign (trimBy isPadding value.toList)
  let digits ← digitGroups? rest
  if digits.length ≤ 4300 then some (Numeral.signed negative (ofDigits digits)) else none

/-! ## The whole command line -/

structure Options where
  file : Option String := none
  verbose : Bool := false
  color : Bool := true
  recursionLimit : Int := 50000

/-- What a command line asks for. -/
inductive Request where
  | help
  | version
  | start (options : Options)

/-- What has been understood so far. -/
structure Progress where
  options : Options := {}
  /-- the place of the file is taken -/
  placed : Bool := false
  /-- words that have no place, latest first -/
  extras : List String := []

/-- An option that takes no value is in effect, or ends the matter. -/
def Progress.set (p : Progress) : Flag → Except Request Progress
  | .help => .error .help
  | .version => .error .version
  | .verbose => .ok { p with options := { p.options with verbose := true } }
  | .noColor => .ok { p with options := { p.options with color := false } }
  | .recursionLimit => .ok p

def Progress.limit (p : Progress) (value : String) : Except UsageError Progress :=
  match wholeNumber? value with
  | some n => .ok { p with options := { p.options with recursionLimit := n } }
  | none => .error (.badNumber .recursionLimit value)

/-- The short options written together, from a first one on that takes no value. -/
def cluster (flag : Flag) : List Char → Except UsageError (List Flag)
  | [] => .ok [flag]
  | c :: rest =>
    match Flag.ofSpelling? (String.ofList ['-', c]) with
    | none => .error (.unwantedValue flag (String.ofList (c :: rest)))
    | some next => (cluster next rest).map (flag :: ·)

/-- The options that one word gives, in turn. -/
def flagsOf (flag : Flag) (isLong : Bool) (value : Option String) :
    Except UsageError (List Flag) :=
  match value with
  | none => .ok [flag]
  | some value =>
    if isLong || value.isEmpty then .error (.unwantedValue flag value)
    else cluster flag value.toList

/-- Takes words of which none is spelled like an option. The separator is dropped next to the
file. -/
def Progress.takeLast (p : Progress) (words : List Word) : Progress :=
  if p.placed then { p with extras := (words.map Word.text).reverse ++ p.extras }
  else
    match words.dropWhile Word.isSeparator with
    | [] => p
    | file :: rest =>
      { options := { p.options with file := some file.text }
        placed := true
        extras := ((rest.dropWhile Word.isSeparator).map Word.text).reverse ++ p.extras }

/-- Understands the words in turn. The file takes the first plain word; every other plain word and
every word that is no option is left over. An option that ends the matter does so when it is
reached. -/
def interpret (p : Progress) : List Word → Except UsageError (Except Request Progress)
  | [] => .ok (.ok p)
  | word :: rest =>
    if !(word.isOption || rest.any Word.isOption) then .ok (.ok (p.takeLast (word :: rest)))
    else match word with
    | .plain s =>
      if p.placed then interpret { p with extras := s :: p.extras } rest
      else interpret { p with options := { p.options with file := some s }, placed := true } rest
    | .separator => interpret p rest
    | .unknown s => interpret { p with extras := s :: p.extras } rest
    | .option .recursionLimit _ (some value) => do interpret (← p.limit value) rest
    | .option .recursionLimit _ none =>
      match rest with
      | .plain value :: rest => do interpret (← p.limit value) rest
      | _ => .error (.valueMissing .recursionLimit)
    | .option flag isLong value => do
      match (← flagsOf flag isLong value).foldlM Progress.set p with
      | .error request => return .error request
      | .ok p => interpret p rest

/-- What the arguments ask for. -/
def request (args : List String) : Except UsageError Request := do
  match ← interpret {} (← classifyAll args) with
  | .error request => return request
  | .ok p =>
    if p.extras.isEmpty then return .start p.options
    else throw (.unrecognized p.extras.reverse)

end Scheme.CommandLine
