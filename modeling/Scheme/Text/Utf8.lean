import Scheme.Text.Quoted

/-!
# Reading bytes as text

Bytes are read as UTF-8, and the first piece that is no character is reported.
-/

namespace Scheme.Text.Utf8

inductive Reason
  | badStart
  | badContinuation
  | endOfData

def Reason.text : Reason → String
  | .badStart => "invalid start byte"
  | .badContinuation => "invalid continuation byte"
  | .endOfData => "unexpected end of data"

/-- A piece of `length` bytes at `start` that is no character. -/
structure Fault where
  start : Nat
  length : Nat
  lead : UInt8
  reason : Reason

def Fault.text (f : Fault) : String :=
  let place :=
    if f.length == 1 then
      s!"byte 0x{String.ofList (hex 2 f.lead.toNat)} in position {f.start}"
    else s!"bytes in position {f.start}-{f.start + f.length - 1}"
  s!"'utf-8' codec can't decode {place}: {f.reason.text}"

/-- A sequence that is not complete yet. -/
structure Partial where
  start : Nat
  lead : UInt8
  /-- how many bytes it has so far -/
  seen : Nat
  /-- how many bytes it still needs, after the one that comes next -/
  more : Nat
  /-- the bits read so far -/
  code : Nat
  /-- what the next byte may be -/
  low : UInt8 := 0x80
  high : UInt8 := 0xBF

def Partial.fault (p : Partial) (reason : Reason) : Fault :=
  ⟨p.start, p.seen, p.lead, reason⟩

/-- The sequence that a lead byte starts. The second byte is restricted where a longer form than
needed, a surrogate or a number past the last character would come out. -/
def Partial.ofLead? (pos : Nat) (b : UInt8) : Option Partial :=
  let n := b.toNat
  if n < 0xC2 then none
  else if n < 0xE0 then some { start := pos, lead := b, seen := 1, more := 0, code := n - 0xC0 }
  else if n < 0xF0 then
    let p : Partial := { start := pos, lead := b, seen := 1, more := 1, code := n - 0xE0 }
    some (if n = 0xE0 then { p with low := 0xA0 }
      else if n = 0xED then { p with high := 0x9F } else p)
  else if n < 0xF5 then
    let p : Partial := { start := pos, lead := b, seen := 1, more := 2, code := n - 0xF0 }
    some (if n = 0xF0 then { p with low := 0x90 }
      else if n = 0xF4 then { p with high := 0x8F } else p)
  else none

/-- Reads on at byte `pos`, with the characters read so far, latest first. -/
def decodeFrom (pos : Nat) (read : List Char) :
    Option Partial → List UInt8 → Except Fault (List Char)
  | none, [] => .ok read.reverse
  | some p, [] => .error (p.fault .endOfData)
  | none, b :: rest =>
    if b < 0x80 then decodeFrom (pos + 1) (Char.ofNat b.toNat :: read) none rest
    else match Partial.ofLead? pos b with
      | some p => decodeFrom (pos + 1) read (some p) rest
      | none => .error ⟨pos, 1, b, .badStart⟩
  | some p, b :: rest =>
    if p.low ≤ b && b ≤ p.high then
      let code := p.code * 64 + (b.toNat - 0x80)
      match p.more with
      | 0 => decodeFrom (pos + 1) (Char.ofNat code :: read) none rest
      | more + 1 =>
        decodeFrom (pos + 1) read
          (some { start := p.start, lead := p.lead, seen := p.seen + 1, more, code }) rest
    else .error (p.fault .badContinuation)

def decode (bytes : ByteArray) : Except Fault String :=
  (decodeFrom 0 [] none bytes.toList).map String.ofList

end Scheme.Text.Utf8
