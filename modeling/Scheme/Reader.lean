import Scheme.Literal
import Scheme.Token.Stream

/-!
# Reading expressions

The reader keeps a stack of lists and quote marks that are open.
-/

namespace Scheme

namespace Reader

/-- An expression that is not complete. -/
inductive Pending where
  | quoted
  /-- a list, with what it holds so far, latest first -/
  | list (items : List Value)

/-- What a token does. -/
inductive Step where
  /-- an outermost expression is complete -/
  | complete (v : Value)
  /-- more is needed, with so many levels left and this open -/
  | more (room : Nat) (stack : List Pending)
  /-- the token is at fault and is used up -/
  | fault (e : Error)
  /-- the token may not come here and stays where it is -/
  | blocked (e : Error)

/-- Puts a complete expression in its place. -/
def deliver (room : Nat) (v : Value) : List Pending → Step
  | [] => .complete v
  | .quoted :: stack => deliver (room + 1) (.list [.sym .quote, v]) stack
  | .list items :: stack => .more room (.list (v :: items) :: stack)

/-- Opens a level. -/
def descend (room : Nat) (stack : List Pending) (p : Pending) : Step :=
  match room with
  | 0 => .fault .depthExceeded
  | room + 1 => .more room (p :: stack)

def take (room : Nat) (stack : List Pending) (t : Token) : Step :=
  match t.kind with
  | .atom =>
    match Literal.ofWord t.text with
    | .ok v => deliver room v stack
    | .error e => .fault e
  | .string => deliver room (.str (Literal.ofQuoted t.text)) stack
  | .quote => descend room stack .quoted
  | .openParen => descend room stack (.list [])
  | .closeParen =>
    match stack with
    | [] => .fault .unexpectedClose
    | .quoted :: _ => .blocked .closeAfterQuote
    | .list items :: stack => deliver (room + 1) (.list items.reverse) stack
  | .other label => .fault (.unknownToken label (String.ofList t.text))

/-- What is wrong if the tokens end now. -/
def endFault? : List Pending → Option Error
  | [] => none
  | .quoted :: _ => some .nothingAfterQuote
  | .list _ :: _ => some .unclosedList

/-- Reads expressions from tokens: the first one, or all. Gives the expressions, or the first
error, and the stream that is left. -/
def run (first : Bool) (limit : Nat) (failure : Option Error) (room : Nat) (stack : List Pending)
    (read : List Value) : List Token → Except Error (List Value) × TokenStream
  | [] =>
    match failure.or (endFault? stack) with
    | some e => (.error e, .ended)
    | none => (.ok read.reverse, .ended)
  | t :: rest =>
    match take room stack t with
    | .complete v =>
      if first then (.ok [v], { incoming := rest, failure })
      else run first limit failure limit [] (v :: read) rest
    | .more room stack => run first limit failure room stack read rest
    | .fault e => (.error e, { incoming := rest, failure })
    | .blocked e => (.error e, { buffer := [t], incoming := rest, failure })

end Reader

namespace TokenStream

/-- Reads the next expression, if there is one. -/
def readExpr (limit : Nat) (s : TokenStream) : Except Error (Option Value) × TokenStream :=
  let (result, s) := Reader.run true limit s.failure limit [] [] s.remaining
  (result.map List.head?, s)

/-- Reads all expressions that are left. -/
def readAll (limit : Nat) (s : TokenStream) : Except Error (List Value) × TokenStream :=
  Reader.run false limit s.failure limit [] [] s.remaining

end TokenStream

/-- The expressions of a source, with at most `limit` levels of nesting. -/
def parse (limit : Nat) (source : List Char) : Except Error (List Value) :=
  ((TokenStream.ofSource source).readAll limit).1

/-- The expression of a source that holds exactly one. -/
def parseOne (limit : Nat) (source : List Char) : Except Error Value := do
  match ← parse limit source with
  | [v] => .ok v
  | [] => .error .noExpression
  | vs => .error (.severalExpressions vs.length)

end Scheme
