import Scheme.Proofs.Failures
import Scheme.Proofs.Lexing

/-!
# Scanning piece by piece

Matching a piece at the front again and again gives the tokens of the lexer.
-/

namespace Scheme

open Scheme.Text

inductive Piece where
  | blanks
  | comment
  | token (t : Token)
  /-- a double quote that is not answered -/
  | openString

/-- A string behind its opening quote: its text with the closing one, and what comes after it. -/
def closeString? : List Char → Option (List Char × List Char)
  | [] => none
  | c :: rest =>
    if c = '\x22' then some ([c], rest)
    else if c = '\\' then
      match rest with
      | [] => none
      | d :: rest => (closeString? rest).map fun (text, after) => (c :: d :: text, after)
    else (closeString? rest).map fun (text, after) => (c :: text, after)

/-- The piece at the front of a source that begins with `c`, and what comes after it. -/
def piece? (c : Char) (rest : List Char) : Option (Piece × List Char) :=
  if isBlank c then some (.blanks, rest.dropWhile isBlank)
  else if c = ';' then some (.comment, rest.dropWhile (· ≠ '\n'))
  else if c = '(' then some (.token ⟨.openParen, [c]⟩, rest)
  else if c = ')' then some (.token ⟨.closeParen, [c]⟩, rest)
  else if c = '\x27' then some (.token ⟨.quote, [c]⟩, rest)
  else if c = '\x22' then
    match closeString? rest with
    | some (text, after) => some (.token ⟨.string, c :: text⟩, after)
    | none => some (.openString, rest)
  else if isAtomChar c then
    some (.token ⟨.atom, c :: rest.takeWhile isAtomChar⟩, rest.dropWhile isAtomChar)
  else none

theorem length_dropWhile_le (p : Char → Bool) (text : List Char) :
    (text.dropWhile p).length ≤ text.length :=
  (List.dropWhile_suffix p).length_le

theorem length_closeString? {s text after : List Char} (h : closeString? s = some (text, after)) :
    after.length < s.length := by
  fun_induction closeString? s generalizing text with
  | case1 => cases h
  | case2 =>
    cases h
    exact Nat.lt_succ_self _
  | case3 => cases h
  | case4 _ d rest ih =>
    obtain ⟨⟨text', after'⟩, hclose, heq⟩ := Option.map_eq_some_iff.1 h
    cases heq
    exact Nat.lt_succ_of_lt (Nat.lt_succ_of_lt (ih hclose))
  | case5 c rest _ _ ih =>
    obtain ⟨⟨text', after'⟩, hclose, heq⟩ := Option.map_eq_some_iff.1 h
    cases heq
    exact Nat.lt_succ_of_lt (ih hclose)

namespace Lexer

theorem lexed_string (before : List Char) (ts : List Token) (s : List Char) :
    lexed ⟨.string before false, ts⟩ s =
      match closeString? s with
      | some (text, after) => lexed ⟨.gap, ⟨.string, before.reverse ++ text⟩ :: ts⟩ after
      | none => ⟨ts.reverse, some .unterminatedString⟩ := by
  fun_induction closeString? s generalizing before with
  | case1 => rfl
  | case2 rest => exact lexed_string_end before ts rest
  | case3 => rfl
  | case4 d rest _ ih =>
    have hstep : lexed ⟨.string before false, ts⟩ ('\\' :: d :: rest) =
      lexed ⟨.string (d :: '\\' :: before) false, ts⟩ rest := rfl
    rw [hstep, ih]
    cases closeString? rest with
    | none => rfl
    | some p => simp
  | case5 c rest hquote hescape ih =>
    have hstep : lexed ⟨.string before false, ts⟩ (c :: rest) =
        lexed ⟨.string (c :: before) false, ts⟩ rest := by
      rw [lexed_cons]
      simp only [step, if_neg hquote, beq_eq_false_iff_ne.2 hescape]
    rw [hstep, ih]
    cases closeString? rest with
    | none => rfl
    | some p => simp

theorem lexed_comment (ts : List Token) (s : List Char) :
    lexed ⟨.comment, ts⟩ s = lexed ⟨.gap, ts⟩ (s.dropWhile (· ≠ '\n')) := by
  induction s with
  | nil => rfl
  | cons c s ih =>
    rw [lexed_cons]
    by_cases hc : c = '\n'
    · subst hc
      simp only [step, if_true, ne_eq, not_true_eq_false, decide_false, List.dropWhile_cons]
      exact (lexed_blank isBlank_newline ts s).symm
    · simpa [step, hc] using ih

end Lexer

/-- What the lexer makes of a source with this piece at its front, and that behind it. -/
def Piece.lexedWith (p : Piece) (after : List Char) : Lexed :=
  match p with
  | .blanks | .comment => lex after
  | .token t => ⟨t :: (lex after).tokens, (lex after).failure⟩
  | .openString => ⟨[], some .unterminatedString⟩

theorem lex_blanks {c : Char} (h : isBlank c = true) (rest : List Char) :
    lex (c :: rest) = lex (rest.dropWhile isBlank) := by
  have hblanks : ∀ d ∈ c :: rest.takeWhile isBlank, isBlank d = true :=
    List.forall_mem_cons.2 ⟨h, List.all_eq_true.1 List.all_takeWhile⟩
  have hsplit : c :: rest = (c :: rest.takeWhile isBlank) ++ rest.dropWhile isBlank := by simp
  rw [hsplit, Lexer.lex_eq, Lexer.lexed_append, Lexer.read_blanks hblanks]
  rfl

theorem lex_atom {c : Char} (h : isAtomChar c = true) (rest : List Char) :
    lex (c :: rest) = Piece.lexedWith (.token ⟨.atom, c :: rest.takeWhile isAtomChar⟩)
      (rest.dropWhile isAtomChar) := by
  have hword : ∀ d ∈ c :: rest.takeWhile isAtomChar, isAtomChar d = true :=
    List.forall_mem_cons.2 ⟨h, List.all_eq_true.1 List.all_takeWhile⟩
  have hends : Lexer.EndsAtom (rest.dropWhile isAtomChar) := firstChar_dropWhile isAtomChar rest
  have hsplit : c :: rest = (c :: rest.takeWhile isAtomChar) ++ rest.dropWhile isAtomChar := by simp
  rw [hsplit, Lexer.lex_eq, Lexer.lexed_atom (by simp) hword hends, Lexer.lexed_gap]
  rfl

/-- At the front of every source there is a piece. -/
theorem exists_piece (c : Char) (rest : List Char) :
    ∃ p after, piece? c rest = some (p, after) ∧ after.length ≤ rest.length ∧
      lex (c :: rest) = p.lexedWith after := by
  unfold piece?
  split
  · rename_i hblank
    exact ⟨_, _, rfl, length_dropWhile_le _ _, lex_blanks hblank rest⟩
  rename_i hblank
  split
  · rename_i hcomment
    subst hcomment
    exact ⟨_, _, rfl, length_dropWhile_le _ _, Lexer.lexed_comment [] rest⟩
  rename_i hcomment
  split
  · rename_i hopen
    subst hopen
    exact ⟨_, _, rfl, Nat.le_refl _, Lexer.lexed_gap [⟨.openParen, ['(']⟩] rest⟩
  rename_i hopen
  split
  · rename_i hclose
    subst hclose
    exact ⟨_, _, rfl, Nat.le_refl _, Lexer.lexed_gap [⟨.closeParen, [')']⟩] rest⟩
  rename_i hclose
  split
  · rename_i hquote
    subst hquote
    exact ⟨_, _, rfl, Nat.le_refl _, Lexer.lexed_gap [⟨.quote, ['\x27']⟩] rest⟩
  rename_i hquote
  split
  · rename_i hstring
    subst hstring
    have hlexed := Lexer.lexed_string ['\x22'] [] rest
    split
    · rename_i text after hclose
      rw [hclose] at hlexed
      refine ⟨_, _, rfl, Nat.le_of_lt (length_closeString? hclose), hlexed.trans ?_⟩
      exact Lexer.lexed_gap [⟨.string, '\x22' :: text⟩] after
    · rename_i hclose
      rw [hclose] at hlexed
      exact ⟨_, _, rfl, Nat.le_refl _, hlexed⟩
  rename_i hstring
  -- What nothing else begins with is a character of an atom, so that this is the last case.
  have hatom : isAtomChar c = true := Lexer.isAtomChar_iff.2
    ⟨Bool.eq_false_iff.2 hblank, hopen, hclose, hquote, hstring, hcomment⟩
  rw [if_pos hatom]
  exact ⟨_, _, rfl, length_dropWhile_le _ _, lex_atom hatom rest⟩

theorem fits_of_piece {c : Char} {rest after : List Char} {p : Piece}
    (h : piece? c rest = some (p, after)) :
    after.length ≤ rest.length ∧ lex (c :: rest) = p.lexedWith after := by
  obtain ⟨p', after', hpiece, hfits⟩ := exists_piece c rest
  cases hpiece.symm.trans h
  exact hfits

namespace Risky

/-- The tokens of a source, and what stops the scan if it does not get to the end. -/
def scan (source : List Char) : List Token × Option Raised :=
  match source with
  | [] => ([], none)
  | c :: rest =>
    match _found : piece? c rest with
    | none => ([], some (.failure .noPiece))
    | some (.openString, _) => ([], some (.error .unterminatedString))
    | some (.token t, after) =>
      let (ts, stop) := scan after
      (t :: ts, stop)
    | some (.blanks, after) | some (.comment, after) => scan after
termination_by source.length
decreasing_by
  all_goals
    exact Nat.lt_succ_of_le (fits_of_piece _found).1

theorem scan_eq (source : List Char) :
    scan source = ((lex source).tokens, (lex source).failure.map .error) := by
  fun_induction scan source with
  | case1 => rfl
  | case2 c rest hnone =>
    obtain ⟨p, after, hpiece, -⟩ := exists_piece c rest
    cases hpiece.symm.trans hnone
  | case3 c rest after hopen =>
    rw [(fits_of_piece hopen).2]
    rfl
  | case4 c rest t after htoken ts stop hscan ih =>
    rw [(fits_of_piece htoken).2]
    cases hscan.symm.trans ih
    rfl
  | case5 c rest after hblanks ih => rw [ih, (fits_of_piece hblanks).2]; rfl
  | case6 c rest after hcomment ih => rw [ih, (fits_of_piece hcomment).2]; rfl

end Risky

end Scheme
