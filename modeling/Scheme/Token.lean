/-!
# Tokens

The five kinds of a source; a token from elsewhere may be of another kind.
-/

namespace Scheme

inductive TokenKind where
  | openParen
  | closeParen
  | quote
  | string
  | atom
  | other (label : String)
deriving DecidableEq

namespace TokenKind

def label : TokenKind → String
  | .openParen => "lparen"
  | .closeParen => "rparen"
  | .quote => "quote"
  | .string => "string"
  | .atom => "atom"
  | .other label => label

def ofLabel : String → TokenKind
  | "lparen" => .openParen
  | "rparen" => .closeParen
  | "quote" => .quote
  | "string" => .string
  | "atom" => .atom
  | label => .other label

theorem ofLabel_label {k : TokenKind} (h : ∀ label, k ≠ .other label) : ofLabel k.label = k := by
  cases k with
  | other label => exact absurd rfl (h label)
  | _ => rfl

end TokenKind

structure Token where
  kind : TokenKind
  /-- the token as it stands in the source, quotes and escapes included -/
  text : List Char
deriving DecidableEq

end Scheme
