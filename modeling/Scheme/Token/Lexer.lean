import Scheme.Error
import Scheme.Text.Blank
import Scheme.Token

/-!
# Cutting source into tokens

The source is read character by character, in strings, atoms, comments and blanks.
-/

namespace Scheme

open Scheme.Text

/-- What the characters just read belong to. Texts are kept with the latest character first. -/
inductive Lexer.Mode where
  | gap
  | comment
  | atom (read : List Char)
  | string (read : List Char) (escaped : Bool)
deriving DecidableEq

/-- The lexer after a part of the source: the tokens that are complete, latest first. -/
structure Lexer where
  mode : Lexer.Mode := .gap
  tokens : List Token := []

/-- The tokens of a source, and the error that comes after them if the source breaks off. -/
structure Lexed where
  tokens : List Token
  failure : Option Error
deriving DecidableEq

/-- A character that may stand in an atom. -/
def isAtomChar (c : Char) : Bool :=
  !isBlank c && !(c == '(' || c == ')' || c == '\x27' || c == '\x22' || c == ';')

namespace Lexer

/-- The lexer after a character that continues no token. -/
def start (tokens : List Token) (c : Char) : Lexer :=
  if isBlank c then ⟨.gap, tokens⟩
  else match c with
    | ';' => ⟨.comment, tokens⟩
    | '(' => ⟨.gap, ⟨.openParen, [c]⟩ :: tokens⟩
    | ')' => ⟨.gap, ⟨.closeParen, [c]⟩ :: tokens⟩
    | '\x27' => ⟨.gap, ⟨.quote, [c]⟩ :: tokens⟩
    | '\x22' => ⟨.string [c] false, tokens⟩
    | _ => ⟨.atom [c], tokens⟩

def step (l : Lexer) (c : Char) : Lexer :=
  match l.mode with
  | .gap => start l.tokens c
  | .comment => if c = '\n' then ⟨.gap, l.tokens⟩ else l
  | .atom read =>
    if isAtomChar c then ⟨.atom (c :: read), l.tokens⟩
    else start (⟨.atom, read.reverse⟩ :: l.tokens) c
  | .string read true => ⟨.string (c :: read) false, l.tokens⟩
  | .string read false =>
    if c = '\x22' then ⟨.gap, ⟨.string, (c :: read).reverse⟩ :: l.tokens⟩
    else ⟨.string (c :: read) (c == '\\'), l.tokens⟩

def finish (l : Lexer) : Lexed :=
  match l.mode with
  | .gap => ⟨l.tokens.reverse, none⟩
  | .comment => ⟨l.tokens.reverse, none⟩
  | .atom read => ⟨(⟨.atom, read.reverse⟩ :: l.tokens).reverse, none⟩
  | .string _ _ => ⟨l.tokens.reverse, some .unterminatedString⟩

end Lexer

def lex (source : List Char) : Lexed :=
  (source.foldl Lexer.step {}).finish

end Scheme
