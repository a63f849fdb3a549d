import Scheme.Token.Lexer

/-!
# What the lexer does with pieces of text

A text is lexed piece by piece, since a newline ends everything but a string.
-/

namespace Scheme

open Scheme.Text

/-- The text is empty, or its first character has this property. -/
def FirstChar (p : Char → Prop) (text : List Char) : Prop := ∀ c ∈ text.head?, p c

theorem firstChar_nil (p : Char → Prop) : FirstChar p [] := by
  intro c hc
  simp at hc

theorem firstChar_cons {p : Char → Prop} {c : Char} (h : p c) (text : List Char) :
    FirstChar p (c :: text) := by
  intro d hd
  simp only [List.head?_cons, Option.mem_def, Option.some.injEq] at hd
  rw [← hd]
  exact h

theorem firstChar_dropWhile (p : Char → Bool) (text : List Char) :
    FirstChar (fun c => p c = false) (text.dropWhile p) := by
  intro c hc
  have hhead := List.head?_dropWhile_not p text
  rw [Option.mem_def.1 hc] at hhead
  exact hhead

namespace Lexer

/-- The lexer after a text. -/
def read (l : Lexer) (text : List Char) : Lexer := text.foldl step l

/-- What is lexed if the source ends with this text. -/
def lexed (l : Lexer) (text : List Char) : Lexed := (l.read text).finish

theorem lex_eq (source : List Char) : lex source = lexed {} source := rfl

theorem read_cons (l : Lexer) (c : Char) (text : List Char) :
    l.read (c :: text) = (l.step c).read text := rfl

theorem read_append (l : Lexer) (s t : List Char) : l.read (s ++ t) = (l.read s).read t := by
  unfold read
  rw [List.foldl_append]

theorem lexed_cons (l : Lexer) (c : Char) (text : List Char) :
    l.lexed (c :: text) = (l.step c).lexed text := rfl

theorem lexed_append (l : Lexer) (s t : List Char) : l.lexed (s ++ t) = (l.read s).lexed t := by
  unfold lexed
  rw [read_append]

/-! ## Tokens that were read earlier -/

/-- The lexer with more tokens before those it has. -/
def onto (l : Lexer) (earlier : List Token) : Lexer := { l with tokens := l.tokens ++ earlier }

theorem start_onto (ts earlier : List Token) (c : Char) :
    start (ts ++ earlier) c = (start ts c).onto earlier := by
  unfold start
  split
  · rfl
  · split <;> rfl

theorem step_onto (l : Lexer) (earlier : List Token) (c : Char) :
    (l.onto earlier).step c = (l.step c).onto earlier := by
  obtain ⟨mode, ts⟩ := l
  cases mode with
  | gap => exact start_onto ts earlier c
  | comment =>
    simp only [onto, step]
    split <;> rfl
  | atom read =>
    simp only [onto, step]
    split
    · rfl
    · exact start_onto (⟨.atom, read.reverse⟩ :: ts) earlier c
  | string read escaped =>
    cases escaped with
    | true => rfl
    | false =>
      simp only [onto, step]
      split <;> rfl

theorem read_onto (l : Lexer) (earlier : List Token) (text : List Char) :
    (l.onto earlier).read text = (l.read text).onto earlier := by
  induction text generalizing l with
  | nil => rfl
  | cons c text ih => rw [read_cons, read_cons, step_onto, ih]

theorem finish_onto (l : Lexer) (earlier : List Token) :
    (l.onto earlier).finish = ⟨earlier.reverse ++ l.finish.tokens, l.finish.failure⟩ := by
  obtain ⟨mode, ts⟩ := l
  cases mode <;> simp [onto, finish]

theorem lexed_gap (ts : List Token) (text : List Char) :
    lexed ⟨.gap, ts⟩ text = ⟨ts.reverse ++ (lex text).tokens, (lex text).failure⟩ := by
  have h : (⟨.gap, ts⟩ : Lexer) = onto {} ts := rfl
  rw [lexed, h, read_onto, finish_onto]
  rfl

/-- Whatever comes, the tokens that are complete stay. -/
theorem lexed_keeps_tokens (mode : Mode) (ts : List Token) (text : List Char) :
    ∃ more, (lexed ⟨mode, ts⟩ text).tokens = ts.reverse ++ more := by
  have h : (⟨mode, ts⟩ : Lexer) = onto ⟨mode, []⟩ ts := rfl
  rw [lexed, h, read_onto, finish_onto]
  exact ⟨_, rfl⟩

/-! ## Blanks and newlines -/

theorem step_gap_blank {c : Char} (h : isBlank c = true) (ts : List Token) :
    step ⟨.gap, ts⟩ c = ⟨.gap, ts⟩ := by
  simp only [step, start]
  rw [if_pos h]

theorem read_blanks {text : List Char} (h : ∀ c ∈ text, isBlank c = true) (ts : List Token) :
    read ⟨.gap, ts⟩ text = ⟨.gap, ts⟩ := by
  induction text with
  | nil => rfl
  | cons c text ih =>
    rw [read_cons, step_gap_blank (h c List.mem_cons_self)]
    exact ih fun d hd => h d (List.mem_cons_of_mem c hd)

theorem isBlank_newline : isBlank '\n' = true := by decide

theorem step_newline (l : Lexer) :
    (l.step '\n').mode = .gap ∨ ∃ read, (l.step '\n').mode = .string read false := by
  obtain ⟨mode, ts⟩ := l
  cases mode with
  | gap =>
    rw [step_gap_blank isBlank_newline]
    exact Or.inl rfl
  | comment => exact Or.inl rfl
  | atom read =>
    left
    have hn : isAtomChar '\n' = false := by decide
    simp only [step, hn, Bool.false_eq_true, if_false, start, isBlank_newline, if_true]
  | string read escaped =>
    right
    cases escaped <;> exact ⟨_, rfl⟩

theorem read_line (l : Lexer) (line : List Char) :
    (l.read (line ++ ['\n'])).mode = .gap ∨
      ∃ read, (l.read (line ++ ['\n'])).mode = .string read false := by
  rw [read_append]
  exact step_newline (l.read line)

/-! ## Atoms -/

theorem isAtomChar_iff {c : Char} :
    isAtomChar c = true ↔
      isBlank c = false ∧ c ≠ '(' ∧ c ≠ ')' ∧ c ≠ '\x27' ∧ c ≠ '\x22' ∧ c ≠ ';' := by
  simp [isAtomChar, and_assoc]

theorem start_atomChar {c : Char} (h : isAtomChar c = true) (ts : List Token) :
    start ts c = ⟨.atom [c], ts⟩ := by
  obtain ⟨hb, h1, h2, h3, h4, h5⟩ := isAtomChar_iff.1 h
  unfold start
  rw [if_neg (by simp [hb])]
  split <;> first | contradiction | rfl

theorem read_atomChars {word : List Char} (h : ∀ c ∈ word, isAtomChar c = true)
    (before : List Char) (ts : List Token) :
    read ⟨.atom before, ts⟩ word = ⟨.atom (word.reverse ++ before), ts⟩ := by
  induction word generalizing before with
  | nil => rfl
  | cons c word ih =>
    rw [read_cons]
    simp only [step, h c List.mem_cons_self, if_true]
    rw [ih (fun d hd => h d (List.mem_cons_of_mem c hd))]
    simp

/-- No atom goes on with this text. -/
abbrev EndsAtom : List Char → Prop := FirstChar fun c => isAtomChar c = false

theorem lexed_atom {word : List Char} (hne : word ≠ []) (h : ∀ c ∈ word, isAtomChar c = true)
    {rest : List Char} (hrest : EndsAtom rest) (ts : List Token) :
    lexed ⟨.gap, ts⟩ (word ++ rest) = lexed ⟨.gap, ⟨.atom, word⟩ :: ts⟩ rest := by
  obtain ⟨c, word, rfl⟩ := List.exists_cons_of_ne_nil hne
  have hread : read ⟨.gap, ts⟩ (c :: word) = ⟨.atom (c :: word).reverse, ts⟩ := by
    rw [read_cons]
    have hc : step ⟨.gap, ts⟩ c = ⟨.atom [c], ts⟩ := start_atomChar (h c List.mem_cons_self) ts
    rw [hc, read_atomChars (fun d hd => h d (List.mem_cons_of_mem c hd)), List.reverse_cons]
  rw [lexed_append, hread]
  cases rest with
  | nil => simp [lexed, read, finish]
  | cons d rest =>
    have hd : isAtomChar d = false := hrest d (by simp)
    rw [lexed_cons, lexed_cons]
    simp only [step, hd, Bool.false_eq_true, if_false, List.reverse_reverse]

/-! ## Parentheses and strings -/

theorem lexed_openParen (ts : List Token) (rest : List Char) :
    lexed ⟨.gap, ts⟩ ('(' :: rest) = lexed ⟨.gap, ⟨.openParen, ['(']⟩ :: ts⟩ rest := by
  have h : step ⟨.gap, ts⟩ '(' = ⟨.gap, ⟨.openParen, ['(']⟩ :: ts⟩ := rfl
  rw [lexed_cons, h]

theorem lexed_closeParen (ts : List Token) (rest : List Char) :
    lexed ⟨.gap, ts⟩ (')' :: rest) = lexed ⟨.gap, ⟨.closeParen, [')']⟩ :: ts⟩ rest := by
  have h : step ⟨.gap, ts⟩ ')' = ⟨.gap, ⟨.closeParen, [')']⟩ :: ts⟩ := rfl
  rw [lexed_cons, h]

theorem lexed_blank {c : Char} (h : isBlank c = true) (ts : List Token) (rest : List Char) :
    lexed ⟨.gap, ts⟩ (c :: rest) = lexed ⟨.gap, ts⟩ rest := by
  rw [lexed_cons, step_gap_blank h]

theorem lexed_quotationMark (ts : List Token) (rest : List Char) :
    lexed ⟨.gap, ts⟩ ('\x22' :: rest) = lexed ⟨.string ['\x22'] false, ts⟩ rest := by
  have h : step ⟨.gap, ts⟩ '\x22' = ⟨.string ['\x22'] false, ts⟩ := rfl
  rw [lexed_cons, h]

theorem lexed_string_end (before : List Char) (ts : List Token) (rest : List Char) :
    lexed ⟨.string before false, ts⟩ ('\x22' :: rest) =
      lexed ⟨.gap, ⟨.string, before.reverse ++ ['\x22']⟩ :: ts⟩ rest := by
  have h : step ⟨.string before false, ts⟩ '\x22' =
      ⟨.gap, ⟨.string, before.reverse ++ ['\x22']⟩ :: ts⟩ := by
    simp [step]
  rw [lexed_cons, h]

end Lexer

end Scheme
