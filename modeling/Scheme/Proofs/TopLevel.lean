import Scheme.Proofs.DerivedForms
import Scheme.Proofs.Grammar
import Scheme.Proofs.Limits
import Scheme.Proofs.Succession
import Scheme.Proofs.Trace

/-!
# A text in one `begin`

A text inside a `begin` is one expression, which does what the text does.
-/

namespace Scheme

/-! ## Reading -/

/-- The word for `begin`. -/
def Word.begin : Word := ⟨['b', 'e', 'g', 'i', 'n'], .sym Keyword.begin.symbol, by rfl⟩

/-- The text behind `(begin` and in front of a closing parenthesis on a new line. -/
def enclosed (s : List Char) : List Char := '(' :: (Word.begin.text ++ ' ' :: (s ++ ['\n', ')']))

/-- The newline ends a comment that the text may end in. -/
theorem lex_enclosed {s : List Char} {ts : List Token} (h : lex s = ⟨ts, none⟩) :
    lex (enclosed s) =
      ⟨⟨.openParen, ['(']⟩ :: ⟨.atom, Word.begin.text⟩ :: (ts ++ [closeToken]), none⟩ := by
  have hline : lex (s ++ ['\n']) = ⟨ts, none⟩ := by rw [lex_newline (by rw [h]), h]
  have hclose : lex (s ++ ['\n', ')']) = ⟨ts ++ [closeToken], none⟩ := by
    rcases lex_endsLine ⟨s, rfl⟩ with ⟨us, hlex, happ⟩ | ⟨us, body, hlex, -, -⟩
    · obtain ⟨rfl, -⟩ := Lexed.mk.inj (hlex.symm.trans hline)
      have hparen := happ (closing 1)
      rwa [List.append_assoc, lex_closing] at hparen
    · rw [hlex] at hline
      cases hline
  have hword : ∀ c ∈ Word.begin.text, isAtomChar c = true := List.all_eq_true.1 (by decide)
  have hends : Lexer.EndsAtom (' ' :: (s ++ ['\n', ')'])) := firstChar_cons (by decide) _
  rw [Lexer.lex_eq, enclosed, Lexer.lexed_openParen,
    Lexer.lexed_atom (by simp [Word.begin]) hword hends, Lexer.lexed_blank (by decide),
    Lexer.lexed_gap, hclose]
  rfl

theorem Tree.parsed_tokensAll (limit : Nat) (forest : List Tree) :
    Lexed.parsed limit ⟨tokensAll forest, none⟩ =
      if nestingAll forest ≤ limit then .ok (valueAll forest) else .error .depthExceeded :=
  (readsAll fun t _ => t.reads limit).parsed

theorem parse_enclosed {limit limit' : Nat} {s : List Char} {es : List Value}
    (h : parse limit s = .ok es) (hlimit : limit < limit') :
    parse limit' (enclosed s) = .ok [.form .begin es] := by
  rw [parse_eq] at h
  obtain ⟨ts, hlex⟩ : ∃ ts, lex s = ⟨ts, none⟩ :=
    ⟨(lex s).tokens, by rw [← (parsed_eq_ok h).1]⟩
  rw [hlex] at h
  obtain ⟨forest, rfl, rfl⟩ := Tree.exists_forest h
  have hnesting : Tree.nestingAll forest ≤ limit := by
    rw [Tree.parsed_tokensAll] at h
    split at h
    · assumption
    · cases h
  let tree : Tree := .list ['('] (.atom Word.begin :: forest) [')']
  have htree : Tree.nestingAll [tree] ≤ limit' := by
    simp only [tree, Tree.nestingAll, Tree.nesting]
    omega
  have htokens : lex (enclosed s) = ⟨Tree.tokensAll [tree], none⟩ := by
    rw [lex_enclosed hlex]
    simp [tree, Tree.tokensAll, Tree.tokens, closeToken]
  rw [parse_eq, htokens, Tree.parsed_tokensAll, if_pos htree]
  rfl

/-! ## Evaluating -/

namespace Session

theorem perform_withLimit (s : Session) (limit : Nat) (m : Eval Value) :
    (s.withLimit limit).perform m = sameAnswer limit (s.perform m) := by
  have hstore : (s.withLimit limit).store = s.store := rfl
  simp only [perform, EStateM.run, hstore]
  cases m s.store <;> rfl

theorem store_perform {α : Type} (s : Session) (m : Eval α) :
    (s.perform m).2.store = m.after s.store := by
  simp only [perform, EStateM.run, Eval.after]
  cases m s.store <;> rfl

theorem eq_of_sameAnswer_eq {limit : Nat} {r r' : Except Error Value × Session}
    (h : sameAnswer limit r = sameAnswer limit r') (hlimit : r.2.limit = r'.2.limit) : r = r' := by
  obtain ⟨answer, store, l⟩ := r
  obtain ⟨answer', store', l'⟩ := r'
  obtain rfl : l = l' := hlimit
  simp only [sameAnswer, withLimit, Prod.mk.injEq, Session.mk.injEq, and_true] at h
  obtain ⟨rfl, rfl⟩ := h
  rfl

theorem evalExprs_begin (s : Session) (es : List Value) (env : FrameId) :
    (s.withLimit (s.limit + 2)).evalExprs [.form .begin es] env =
      sameAnswer (s.limit + 2) (s.evalExprs es env) := by
  have hdepth : (s.withLimit (s.limit + 2)).depth = s.depth + 1 :=
    Nat.add_div_right s.limit Nat.zero_lt_two
  have hbegin := Eval.evaluate_form s.depth .begin es env
  unfold evaluate at hbegin
  unfold evalExprs
  rw [perform_withLimit, hdepth]
  simp only [Eval.evalSequence, hbegin, bind_pure]
  rfl

theorem keepsNames_evalExprs (s : Session) (es : List Value) (env : FrameId) :
    Store.KeepsNames (some env) s.store (s.evalExprs es env).2.store := by
  have htraces := @Eval.related_evalSequence _ Eval.compatible_traces (Eval.run s.depth)
    (Eval.run s.depth) (Eval.traces_run s.depth) env .unspecified es s.store
  rw [evalExprs, store_perform]
  exact htraces.keepsNames

/-- **At top level `begin` does not show.** -/
theorem eval_begin {s : Session} {source : String} {es : List Value}
    (h : parse s.limit source.toList = .ok es) :
    let text := "(begin " ++ source ++ "\n" ++ ")"
    (s.withLimit (s.limit + 2)).eval text = sameAnswer (s.limit + 2) (s.eval source) ∧
    ((s.eval text).1 = .error .depthExceeded ∨ s.eval text = s.eval source) ∧
    (es = [] → s.eval source = (.ok .unspecified, s)) ∧
    Store.KeepsNames (some globalFrame) s.store
      ((s.withLimit (s.limit + 2)).eval text).2.store := by
  intro text
  have htext : text.toList = enclosed source.toList := by
    simp [text, enclosed, Word.begin, String.toList_append]
  have hsource : s.eval source = s.evalExprs es globalFrame := by rw [eval, h]
  have hbegin : (s.withLimit (s.limit + 2)).eval text =
      sameAnswer (s.limit + 2) (s.eval source) := by
    have hlimit : (s.withLimit (s.limit + 2)).limit = s.limit + 2 := rfl
    rw [eval, hlimit, htext, parse_enclosed h (by omega), hsource]
    exact s.evalExprs_begin es globalFrame
  refine ⟨hbegin, ?_, fun hes => ?_, ?_⟩
  · rcases s.eval_withLimit (Nat.le_add_right s.limit 2) text with hexceeded | hsame
    · exact .inl hexceeded
    · refine .inr (eq_of_sameAnswer_eq (hsame.symm.trans hbegin) ?_)
      rw [limit_eval, limit_eval]
  · rw [hsource, hes]
    rfl
  · rw [hbegin, hsource]
    exact s.keepsNames_evalExprs es globalFrame

theorem eval_begin_rebound :
    let s := ((fresh 100).eval "(define begin car)").2
    let source := "(define x 1) (display x) ; shown"
    (parse s.limit source.toList).isOk = true ∧
      (s.withLimit (s.limit + 2)).eval ("(begin " ++ source ++ "\n" ++ ")") =
        sameAnswer (s.limit + 2) (s.eval source) := by
  intro s source
  have hlimit : s.limit = 100 := limit_eval (fresh 100) "(define begin car)"
  have hok : (parse s.limit source.toList).isOk = true := by
    rw [hlimit]
    decide +kernel
  refine ⟨hok, ?_⟩
  cases hparse : parse s.limit source.toList with
  | error e =>
    rw [hparse] at hok
    cases hok
  | ok es => exact (eval_begin hparse).1

end Session

end Scheme
