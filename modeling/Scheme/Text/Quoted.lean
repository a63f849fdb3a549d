import Scheme.Text.Unprintable

/-!
# Quoted text in messages

A message shows a text in quotes, with what cannot be printed by its code point.
-/

namespace Scheme.Text

def hexDigit (d : Nat) : Char :=
  if d < 10 then Char.ofNat (48 + d) else Char.ofNat (87 + d)

/-- The last `width` hexadecimal digits of a number, in lower case. -/
def hex (width n : Nat) : List Char :=
  match width with
  | 0 => []
  | width + 1 => hexDigit (n / Nat.pow 16 width % 16) :: hex width n

/-- The shortest of the three forms that holds the code point. -/
def codePointEscape (c : Char) : List Char :=
  let n := c.toNat
  if n < 0x100 then '\\' :: 'x' :: hex 2 n
  else if n < 0x10000 then '\\' :: 'u' :: hex 4 n
  else '\\' :: 'U' :: hex 8 n

def quotedChar (quote c : Char) : List Char :=
  if c == quote || c == '\\' then ['\\', c]
  else if c == '\n' then ['\\', 'n']
  else if c == '\r' then ['\\', 'r']
  else if c == '\t' then ['\\', 't']
  else if isPrintable c then [c]
  else codePointEscape c

/-- The quote that a text is shown in. -/
def quoteFor (s : List Char) : Char :=
  if s.contains '\x27' && !s.contains '\x22' then '\x22' else '\x27'

def quoted (s : String) : String :=
  let text := s.toList
  let quote := quoteFor text
  String.ofList (quote :: (text.flatMap (quotedChar quote) ++ [quote]))

end Scheme.Text
