import Scheme.Symbol

/-!
# Keywords

A keyword at the head is a special form, whatever it is bound to as a variable.
-/

namespace Scheme

inductive Keyword where
  | quote
  | conditional
  | define
  | assign
  | lambda
  | begin
  | bind
  | choose
  | and
  | or
deriving DecidableEq

/-- The keyword that a symbol names, if it names one. -/
def Keyword.ofSymbol? (x : Symbol) : Option Keyword :=
  match x.name with
  | "quote" => some .quote
  | "if" => some .conditional
  | "define" => some .define
  | "set!" => some .assign
  | "lambda" => some .lambda
  | "begin" => some .begin
  | "let" => some .bind
  | "cond" => some .choose
  | "and" => some .and
  | "or" => some .or
  | _ => none

end Scheme
