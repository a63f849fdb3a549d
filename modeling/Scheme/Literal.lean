import Scheme.Error
import Scheme.Number.Numeral
import Scheme.Text.Quoted
import Scheme.Value

/-!
# Literals

A bare word is a truth value, a numeral or else a symbol.
-/

namespace Scheme.Literal

/-- The most digits that an integer may be written with. -/
def maxDigits : Nat := 4300

def ofWord (word : List Char) : Except Error Value :=
  match word with
  | ['#', 't'] => .ok (.bool true)
  | ['#', 'f'] => .ok (.bool false)
  | _ =>
    match Numeral.ofText? word with
    | some (.integer negative digits) =>
      if maxDigits < digits.length then .error (.integerTooLong word.length)
      else .ok (.num (.int (Numeral.signed negative (Text.ofDigits digits))))
    | some (.fraction negative digits exponent) =>
      .ok (.num (.float (Numeral.toFloat negative digits exponent)))
    | none =>
      match Symbol.ofName? (String.ofList word) with
      | some x => .ok (.sym x)
      | none => .error (.invalidName (Text.quoted ""))

/-- The character that stands behind a backslash in a string. -/
def unescaped : Char → Char
  | 'n' => '\n'
  | 't' => '\t'
  | c => c

def unescape : List Char → List Char
  | '\\' :: c :: rest => unescaped c :: unescape rest
  | c :: rest => c :: unescape rest
  | [] => []

/-- The string that a text between quotes writes: everything but the first and the last character,
with the escapes resolved. -/
def ofQuoted (text : List Char) : String :=
  String.ofList (unescape text.tail.dropLast)

end Scheme.Literal
