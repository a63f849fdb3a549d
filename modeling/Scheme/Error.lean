import Scheme.Number.Function
import Scheme.Symbol

/-!
# Errors

An error holds its cause; its kind and its wording are computed from it.
-/

namespace Scheme

/-- The kinds of errors that are announced to the user. -/
inductive ErrorKind where
  | general
  | malformed
  | incomplete
  | unbound
  | arity
  | wrongType
  | divisionByZero
  | domain
deriving DecidableEq

def ErrorKind.title : ErrorKind → String
  | .general => "SchemeError"
  | .malformed => "SchemeSyntaxError"
  | .incomplete => "IncompleteInputError"
  | .unbound => "UnboundSymbolError"
  | .arity => "ArityError"
  | .wrongType => "SchemeTypeError"
  | .divisionByZero => "DivisionByZeroError"
  | .domain => "DomainError"

inductive Error where
  -- reading
  | unterminatedString
  | nothingAfterQuote
  | closeAfterQuote
  | unclosedList
  | unexpectedClose
  | unknownToken (kind text : String)
  | integerTooLong (length : Nat)
  | noExpression
  | severalExpressions (count : Nat)
  /-- a symbol without a name; no text that is read has one -/
  | invalidName (shown : String)
  -- evaluating forms
  | notEvaluable (shown : String)
  | emptyCombination
  | quoteCount
  | conditionalCount
  | defineNothing
  | defineProcedureName
  | defineTarget (shown : String)
  | defineCount
  | assignCount
  | assignTarget (shown : String)
  | lambdaNothing
  | parameterList (shown : String)
  | duplicateParameter (params : List Symbol)
  | bindNothing
  | malformedBinding (shown : String)
  | malformedClause (shown : String)
  | elseNotLast
  -- variables
  | unbound (name : String)
  | unboundAssignment (name : String)
  | notASymbol (shown : String)
  -- calls
  | notApplicable (written : String)
  | closureArity (name : Option Symbol) (expected given : Nat)
  | exactArity (name : String) (expected given : Nat)
  | noArgument (name : String)
  | tooFewToCompare (name : String) (given : Nat)
  | notANumber (name written : String)
  | notAList (name written : String)
  | emptyList (name : String)
  | divisionByZero
  | zeroToNegativePower
  | noResult (name : String) (fault : MathFault)
  /-- expressions or calls are nested too deeply -/
  | depthExceeded
deriving DecidableEq

namespace Error

/-- The plural ending of the noun that is counted. -/
def plural (n : Nat) : String := if n = 1 then "" else "s"

def message : Error → String
  | unterminatedString => "Unterminated string literal"
  | nothingAfterQuote => "Expected an expression after '"
  | closeAfterQuote => "Expected an expression after ', got ')'"
  | unclosedList => "Unmatched '('"
  | unexpectedClose => "Unexpected ')'"
  | unknownToken kind text => s!"Unknown token: {kind} {text}"
  | integerTooLong length => s!"Integer literal too long ({length} digits)"
  | noExpression => "Expected an expression, got empty input"
  | severalExpressions count => s!"Expected one expression, got {count}"
  | invalidName shown => s!"symbol name must be a non-empty string, got {shown}"
  | notEvaluable shown => s!"Cannot evaluate {shown}"
  | emptyCombination => "Cannot evaluate the empty combination ()"
  | quoteCount => "quote requires exactly 1 argument"
  | conditionalCount => "if requires a test, a consequent and an optional alternate"
  | defineNothing => "define requires a name"
  | defineProcedureName => "define requires a procedure name"
  | defineTarget shown => s!"Cannot define {shown}: not a symbol"
  | defineCount => "define requires exactly 2 arguments"
  | assignCount => "set! requires exactly 2 arguments: (set! var value)"
  | assignTarget shown => s!"set! first argument must be a symbol, got {shown}"
  | lambdaNothing => "lambda requires a parameter list"
  | parameterList shown => s!"Parameter list must be a list of symbols, got {shown}"
  | duplicateParameter params =>
    "Duplicate parameter in " ++ " ".intercalate (params.map Symbol.name)
  | bindNothing => "let requires a list of bindings"
  | malformedBinding shown => s!"Malformed let binding {shown}"
  | malformedClause shown => s!"Malformed cond clause {shown}"
  | elseNotLast => "else must be the last cond clause"
  | unbound name => s!"Unbound symbol {name}"
  | unboundAssignment name => s!"Cannot set! unbound symbol {name}"
  | notASymbol shown => s!"Cannot define {shown}: not a symbol"
  | notApplicable written => s!"Cannot apply non-procedure {written}"
  | closureArity name expected given =>
    (name.elim "lambda" Symbol.name) ++
      s!" expects {expected} argument{plural expected}, got {given}"
  | exactArity name expected given =>
    s!"{name} requires exactly {expected} argument{plural expected}, got {given}"
  | noArgument name => s!"{name} requires at least 1 argument"
  | tooFewToCompare name given => s!"{name} requires at least 2 arguments, got {given}"
  | notANumber name written => s!"All arguments to {name} must be numbers, got {written}"
  | notAList name written => s!"{name} expects a list, got {written}"
  | emptyList name => s!"{name} of the empty list"
  | divisionByZero => "Division by zero"
  | zeroToNegativePower => "Division by zero: zero raised to a negative power"
  | noResult name fault => s!"{name}: {fault.text}"
  | depthExceeded => "maximum recursion depth exceeded"

/-- The kind that an error is announced as. Two errors have none: the depth limit is announced by
its message alone, and a symbol without a name is no fault of a program. -/
def kind? : Error → Option ErrorKind
  | unterminatedString | nothingAfterQuote | unclosedList => some .incomplete
  | unbound _ | unboundAssignment _ => some .unbound
  | closureArity .. | exactArity .. | noArgument _ | tooFewToCompare .. => some .arity
  | notASymbol _ | notApplicable _ | notANumber .. | notAList .. | emptyList _ => some .wrongType
  | divisionByZero | zeroToNegativePower => some .divisionByZero
  | noResult .. => some .domain
  | depthExceeded | invalidName _ => none
  | _ => some .malformed

/-- The input may still become an expression if more follows. -/
def isIncomplete (e : Error) : Bool :=
  e.kind? == some .incomplete

end Error

end Scheme
