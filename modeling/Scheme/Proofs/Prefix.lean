import Scheme.Proofs.Lexing
import Scheme.Proofs.Reading

/-!
# The verdict on whole lines

Whole lines are read or at fault for good, or there is a text that completes them.
-/

namespace Scheme

open Reader

/-- The text consists of whole lines, at least one. -/
def EndsLine (s : List Char) : Prop := ∃ line, s = line ++ ['\n']

theorem lex_endsLine {s : List Char} (hs : EndsLine s) :
    (∃ ts, lex s = ⟨ts, none⟩ ∧
      ∀ t, lex (s ++ t) = ⟨ts ++ (lex t).tokens, (lex t).failure⟩) ∨
    ∃ ts body, lex s = ⟨ts, some .unterminatedString⟩ ∧
      (∀ t, ∃ more, (lex (s ++ t)).tokens = ts ++ more) ∧
      ∀ t, lex (s ++ '\x22' :: t) =
        ⟨ts ++ ⟨.string, body⟩ :: (lex t).tokens, (lex t).failure⟩ := by
  obtain ⟨line, rfl⟩ := hs
  have hmode := Lexer.read_line {} line
  have hlex (t : List Char) :
      lex (line ++ ['\n'] ++ t) = Lexer.lexed (Lexer.read {} (line ++ ['\n'])) t :=
    Lexer.lexed_append {} (line ++ ['\n']) t
  have hend : lex (line ++ ['\n']) = (Lexer.read {} (line ++ ['\n'])).finish := rfl
  generalize Lexer.read {} (line ++ ['\n']) = l at hmode hlex hend
  obtain ⟨mode, ts⟩ := l
  rcases hmode with hm | ⟨before, hm⟩
  · obtain rfl : mode = .gap := hm
    refine Or.inl ⟨ts.reverse, hend, fun t => ?_⟩
    rw [hlex, Lexer.lexed_gap]
  · obtain rfl : mode = .string before false := hm
    refine Or.inr ⟨ts.reverse, before.reverse ++ ['\x22'], hend, fun t => ?_, fun t => ?_⟩
    · rw [hlex]
      exact Lexer.lexed_keeps_tokens _ ts t
    · rw [hlex, Lexer.lexed_string_end, Lexer.lexed_gap]
      simp

/-! ## Complete lines -/

theorem finish_eq_ok {failure : Option Error} {st : State} {es : List Value}
    (h : st.finish failure = .ok es) : failure = none ∧ st.stack = [] ∧ st.read = es.reverse := by
  unfold State.finish at h
  cases failure with
  | some e => cases h
  | none =>
    rw [Option.none_or] at h
    cases hf : endFault? st.stack with
    | some e =>
      rw [hf] at h
      cases h
    | none =>
      rw [hf] at h
      cases h
      exact ⟨rfl, endFault_eq_none hf, by rw [List.reverse_reverse]⟩

theorem parsed_eq_ok {limit : Nat} {l : Lexed} {es : List Value} (h : l.parsed limit = .ok es) :
    l.failure = none ∧ State.steps limit { room := limit } l.tokens =
      .ok (State.onto { room := limit } es.reverse) := by
  unfold Lexed.parsed at h
  obtain ⟨⟨room, stack, read⟩, hst, hfinish⟩ := bind_eq_ok h
  obtain ⟨hf, hstack, hread⟩ := finish_eq_ok hfinish
  have hb := State.steps_balanced (balanced_start limit) hst
  simp only at hstack hread
  subst hstack hread
  obtain rfl : room = limit := hb
  exact ⟨hf, hst⟩

theorem steps_onto_parsed (limit : Nat) (es : List Value) (l : Lexed) :
    ((State.onto { room := limit } es.reverse).steps limit l.tokens).bind (·.finish l.failure) =
      (l.parsed limit).map (es ++ ·) := by
  rw [State.steps_onto, Lexed.parsed]
  cases State.steps limit { room := limit } l.tokens with
  | error e => rfl
  | ok st =>
    have h := State.finish_onto l.failure st es.reverse
    rw [List.reverse_reverse] at h
    exact h

theorem parse_append_of_ok {limit : Nat} {s : List Char} {es : List Value} (hs : EndsLine s)
    (h : parse limit s = .ok es) (t : List Char) :
    parse limit (s ++ t) = (parse limit t).map (es ++ ·) := by
  rw [parse_eq] at h
  obtain ⟨hf, hsteps⟩ := parsed_eq_ok h
  rcases lex_endsLine hs with ⟨ts, hlex, happ⟩ | ⟨ts, body, hlex, -, -⟩
  · rw [hlex] at hsteps
    simp only at hsteps
    rw [parse_eq, parse_eq, happ, Lexed.parsed, State.steps_append, hsteps]
    exact steps_onto_parsed limit es (lex t)
  · -- In an open string the lines would not be complete.
    rw [hlex] at hf
    cases hf

/-! ## Lines at fault -/

theorem finish_incomplete {failure : Option Error} {st : State} {e : Error}
    (hf : ∀ e ∈ failure, e.isIncomplete = true) (h : st.finish failure = .error e) :
    e.isIncomplete = true := by
  unfold State.finish at h
  cases hfault : failure.or (endFault? st.stack) with
  | none =>
    rw [hfault] at h
    cases h
  | some e' =>
    rw [hfault] at h
    cases h
    cases failure with
    | some e' => exact hf e (by simpa using hfault)
    | none => exact endFault_incomplete (by simpa using hfault)

theorem lex_failure {s : List Char} (hs : EndsLine s) :
    ∀ e ∈ (lex s).failure, e.isIncomplete = true := by
  intro e he
  rcases lex_endsLine hs with ⟨ts, hlex, -⟩ | ⟨ts, body, hlex, -, -⟩
  · rw [hlex] at he
    cases he
  · rw [hlex] at he
    cases he
    rfl

theorem lex_append_tokens {s : List Char} (hs : EndsLine s) (t : List Char) :
    ∃ more, (lex (s ++ t)).tokens = (lex s).tokens ++ more := by
  rcases lex_endsLine hs with ⟨ts, hlex, happ⟩ | ⟨ts, body, hlex, hmore, -⟩
  · rw [happ, hlex]
    exact ⟨_, rfl⟩
  · rw [hlex]
    exact hmore t

theorem parse_append_of_fault {limit : Nat} {s : List Char} {e : Error} (hs : EndsLine s)
    (h : parse limit s = .error e) (he : e.isIncomplete = false) (t : List Char) :
    parse limit (s ++ t) = .error e := by
  rw [parse_eq, Lexed.parsed] at h
  cases hst : State.steps limit { room := limit } (lex s).tokens with
  | error e' =>
    rw [hst] at h
    cases h
    obtain ⟨more, hmore⟩ := lex_append_tokens hs t
    rw [parse_eq, Lexed.parsed, hmore, State.steps_append, hst]
    rfl
  | ok st =>
    -- The fault is not at the end: there the input is only incomplete.
    rw [hst] at h
    rw [finish_incomplete (lex_failure hs) h] at he
    cases he

theorem parse_error_cases {limit : Nat} {s : List Char} {e : Error} (hs : EndsLine s)
    (h : parse limit s = .error e) : e.isIncomplete = true ∨ e.IsDefinite := by
  rw [parse_eq, Lexed.parsed] at h
  cases hst : State.steps limit { room := limit } (lex s).tokens with
  | error e' =>
    rw [hst] at h
    cases h
    exact Or.inr (State.steps_definite hst)
  | ok st =>
    rw [hst] at h
    exact Or.inl (finish_incomplete (lex_failure hs) h)

/-! ## Lines that break off -/

def closeToken : Token := ⟨.closeParen, [')']⟩

theorem steps_close (limit room : Nat) (items : List Value) (stack : List Pending)
    (read : List Value) :
    ∃ es, State.steps limit ⟨room, .list items :: stack, read⟩
      (List.replicate (openLists stack + 1) closeToken) =
        .ok (State.onto { room := limit } es) := by
  generalize hn : openLists stack = n
  induction n generalizing room items stack with
  | zero =>
    rcases deliver_cases (room + 1) (.list items.reverse) stack with ⟨-, w, hd⟩ | ⟨_, _, _, _, h⟩
    · refine ⟨w :: read, ?_⟩
      have h : State.step limit ⟨room, .list items :: stack, read⟩ closeToken =
          (deliver (room + 1) (.list items.reverse) stack).next limit read := rfl
      rw [List.replicate_succ, State.steps_cons, h, hd]
      rfl
    · omega
  | succ n ih =>
    rcases deliver_cases (room + 1) (.list items.reverse) stack with
      ⟨h, -⟩ | ⟨room', items', stack', hd, hopen⟩
    · omega
    · have h : State.step limit ⟨room, .list items :: stack, read⟩ closeToken =
          (deliver (room + 1) (.list items.reverse) stack).next limit read := rfl
      rw [List.replicate_succ, State.steps_cons, h, hd]
      exact ih room' items' stack' (by omega)

theorem steps_complete {t : Token} {v : Value} (ht : t.Writes v) (limit : Nat) (st : State) :
    ∃ es, st.steps limit (t :: List.replicate (openLists st.stack) closeToken) =
      .ok (State.onto { room := limit } es) := by
  have h : st.step limit t = (deliver st.room v st.stack).next limit st.read := by
    rw [State.step, ht]
  rw [State.steps_cons, h]
  rcases deliver_cases st.room v st.stack with ⟨hopen, w, hd⟩ | ⟨room, items, stack, hd, hopen⟩
  · rw [hd, hopen]
    exact ⟨w :: st.read, rfl⟩
  · rw [hd, hopen]
    exact steps_close limit room items stack st.read

/-- Parentheses that close so many lists. -/
def closing (n : Nat) : List Char := List.replicate n ')'

theorem lexed_closing (n : Nat) (ts : List Token) :
    Lexer.lexed ⟨.gap, ts⟩ (closing n) =
      ⟨ts.reverse ++ List.replicate n closeToken, none⟩ := by
  induction n generalizing ts with
  | zero => simp [closing, Lexer.lexed, Lexer.read, Lexer.finish]
  | succ n ih =>
    unfold closing at ih ⊢
    rw [List.replicate_succ, Lexer.lexed_closeParen, ih, List.replicate_succ]
    simp [closeToken]

theorem lex_closing (n : Nat) : lex (closing n) = ⟨List.replicate n closeToken, none⟩ := by
  rw [Lexer.lex_eq]
  exact lexed_closing n []

theorem lex_zero_closing (n : Nat) :
    lex ('0' :: closing n) = ⟨⟨.atom, ['0']⟩ :: List.replicate n closeToken, none⟩ := by
  have hend : Lexer.EndsAtom (closing n) := by
    cases n with
    | zero => exact firstChar_nil _
    | succ n => exact firstChar_cons (by decide) _
  have h := Lexer.lexed_atom (by simp : ['0'] ≠ []) (List.all_eq_true.1 (by decide)) hend []
  rw [Lexer.lex_eq]
  exact h.trans (lexed_closing n [⟨.atom, ['0']⟩])

theorem zero_writes : Token.Writes ⟨.atom, ['0']⟩ (.num (.int 0)) := by
  have h : Literal.ofWord ['0'] = .ok (.num (.int 0)) := by rfl
  intro room stack
  simp only [take, h]

theorem string_writes (text : List Char) :
    Token.Writes ⟨.string, text⟩ (.str (Literal.ofQuoted text)) := fun _ _ => rfl

theorem parsed_complete {limit : Nat} {ts : List Token} {st : State} {t : Token} {v : Value}
    (ht : t.Writes v) (hst : State.steps limit { room := limit } ts = .ok st) :
    ∃ es, Lexed.parsed limit
      ⟨ts ++ t :: List.replicate (openLists st.stack) closeToken, none⟩ = .ok es := by
  obtain ⟨es, hes⟩ := steps_complete ht limit st
  refine ⟨([] ++ es).reverse, ?_⟩
  unfold Lexed.parsed
  simp only
  rw [State.steps_append, hst]
  simp only [Except.bind]
  rw [hes]
  rfl

theorem parse_completes {limit : Nat} {s : List Char} {e : Error} (hs : EndsLine s)
    (h : parse limit s = .error e) (he : e.isIncomplete = true) :
    ∃ t es, parse limit (s ++ t) = .ok es := by
  rw [parse_eq, Lexed.parsed] at h
  cases hst : State.steps limit { room := limit } (lex s).tokens with
  | error e' =>
    rw [hst] at h
    cases h
    rw [(State.steps_definite hst).not_incomplete] at he
    cases he
  | ok st =>
    rcases lex_endsLine hs with ⟨ts, hlex, happ⟩ | ⟨ts, body, hlex, -, happ⟩
    · rw [hlex] at hst
      refine ⟨'0' :: closing (openLists st.stack), ?_⟩
      rw [parse_eq, happ, lex_zero_closing]
      exact parsed_complete zero_writes hst
    · rw [hlex] at hst
      refine ⟨'\x22' :: closing (openLists st.stack), ?_⟩
      rw [parse_eq, happ, lex_closing]
      exact parsed_complete (string_writes body) hst

/-! ## The verdict -/

/-- **The verdict on whole lines is final.** -/
theorem parse_lines_append (limit : Nat) (line : List Char) :
    match parse limit (line ++ ['\n']) with
    | .ok es => ∀ t, parse limit (line ++ ['\n'] ++ t) = (parse limit t).map (es ++ ·)
    | .error e =>
      if e.kind? = some .incomplete then ∃ t es, parse limit (line ++ ['\n'] ++ t) = .ok es
      else ∀ t, parse limit (line ++ ['\n'] ++ t) = .error e := by
  have hs : EndsLine (line ++ ['\n']) := ⟨line, rfl⟩
  cases h : parse limit (line ++ ['\n']) with
  | ok es => exact parse_append_of_ok hs h
  | error e =>
    simp only
    split
    · rename_i hk
      exact parse_completes hs h (by simp [Error.isIncomplete, hk])
    · rename_i hk
      exact parse_append_of_fault hs h (by simpa [Error.isIncomplete] using hk)

end Scheme
