import Scheme.Token.Lexer

/-!
# Streams of tokens

A stream lets one look at the next token, and fails once, where its source breaks off.
-/

namespace Scheme

structure TokenStream where
  /-- tokens that were looked at and not taken, earliest first -/
  buffer : List Token := []
  incoming : List Token
  failure : Option Error := none
deriving DecidableEq

namespace TokenStream

def ofLexed (l : Lexed) : TokenStream :=
  { incoming := l.tokens, failure := l.failure }

def ofSource (source : List Char) : TokenStream :=
  ofLexed (lex source)

/-- The tokens that are still to be taken. -/
def remaining (s : TokenStream) : List Token :=
  s.buffer ++ s.incoming

/-- A stream that is at its end for good. -/
def ended : TokenStream := { incoming := [] }

/-- What a stream without tokens answers: its failure, and from then on nothing. -/
def atEnd (s : TokenStream) : Except Error (Option Token) × TokenStream :=
  match s.failure with
  | some e => (.error e, ended)
  | none => (.ok none, ended)

/-- Looks at the next token. If none was looked at before, it goes into the buffer. -/
def peek (s : TokenStream) : Except Error (Option Token) × TokenStream :=
  match s.buffer, s.incoming with
  | t :: _, _ => (.ok (some t), s)
  | [], t :: rest => (.ok (some t), { s with buffer := s.buffer ++ [t], incoming := rest })
  | [], [] => s.atEnd

/-- Takes the next token. -/
def advance (s : TokenStream) : Except Error (Option Token) × TokenStream :=
  match s.buffer, s.incoming with
  | t :: rest, _ => (.ok (some t), { s with buffer := rest })
  | [], t :: rest => (.ok (some t), { s with incoming := rest })
  | [], [] => s.atEnd

/-- Looking ahead takes nothing. -/
theorem remaining_peek (s : TokenStream) : s.peek.2.remaining = s.remaining := by
  obtain ⟨buffer, incoming, failure⟩ := s
  cases buffer <;> cases incoming <;> cases failure <;> rfl

theorem remaining_advance (s : TokenStream) : s.advance.2.remaining = s.remaining.tail := by
  obtain ⟨buffer, incoming, failure⟩ := s
  cases buffer <;> cases incoming <;> cases failure <;> rfl

end TokenStream

end Scheme
