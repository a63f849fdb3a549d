import Scheme.Proofs.Prefix
import Scheme.Session

/-!
# One text after the other

Two texts are evaluated one after the other, but only if both can be read.
-/

namespace Scheme

/-! ## Reading -/

theorem Lexer.finish_step_newline {l : Lexer} (h : l.finish.failure = none) :
    (l.step '\n').finish = l.finish := by
  obtain ⟨mode, ts⟩ := l
  cases mode with
  | gap => rw [step_gap_blank isBlank_newline]
  | comment => rfl
  | atom read =>
    have hends : isAtomChar '\n' = false := by decide
    simp only [step, hends, start, isBlank_newline, finish, Bool.false_eq_true, if_false, if_true]
  | string read escaped =>
    -- A string that is open here is a failure.
    simp [finish] at h

theorem lex_newline {s : List Char} (h : (lex s).failure = none) : lex (s ++ ['\n']) = lex s := by
  have hread : lex (s ++ ['\n']) = ((Lexer.read {} s).step '\n').finish :=
    Lexer.lexed_append {} s ['\n']
  rw [hread]
  exact Lexer.finish_step_newline h

theorem parse_newline {limit : Nat} {s : List Char} {es : List Value}
    (h : parse limit s = .ok es) : parse limit (s ++ ['\n']) = .ok es := by
  rw [parse_eq] at h ⊢
  rwa [lex_newline (parsed_eq_ok h).1]

theorem parse_append {limit : Nat} {s : List Char} {es : List Value}
    (h : parse limit s = .ok es) (t : List Char) :
    parse limit (s ++ '\n' :: t) = (parse limit t).map (es ++ ·) := by
  have happ := parse_append_of_ok ⟨s, rfl⟩ (parse_newline h) t
  rwa [List.append_assoc, List.singleton_append] at happ

/-! ## Evaluating -/

namespace Eval

variable (run : Job → Eval Value) (env : FrameId)

theorem evalSequence_append (last : Value) (es es' : List Value) :
    evalSequence run env last (es ++ es') =
      evalSequence run env last es >>= fun v => evalSequence run env v es' := by
  induction es generalizing last with
  | nil => simp only [List.nil_append, evalSequence, pure_bind]
  | cons e es ih =>
    simp only [List.cons_append, evalSequence, bind_assoc]
    congr 1
    funext v
    exact ih v

theorem evalSequence_of_isEmpty_eq_false {es : List Value} (h : es.isEmpty = false)
    (last last' : Value) : evalSequence run env last es = evalSequence run env last' es := by
  cases es with
  | nil => simp at h
  | cons e es => rfl

end Eval

namespace Session

variable {α β : Type} (s : Session)

theorem perform_bind (m : Eval α) (f : α → Eval β) :
    s.perform (m >>= f) =
      match s.perform m with
      | (.ok a, t) => t.perform (f a)
      | (.error e, t) => (.error e, t) := by
  simp only [perform, EStateM.run, bind, EStateM.bind]
  cases m s.store <;> rfl

theorem evalExprs_append (es es' : List Value) (env : FrameId) :
    s.evalExprs (es ++ es') env =
      match s.evalExprs es env with
      | (.ok v, t) => if es'.isEmpty then (.ok v, t) else t.evalExprs es' env
      | (.error e, t) => (.error e, t) := by
  unfold evalExprs
  rw [Eval.evalSequence_append, perform_bind]
  have hlimit := s.limit_perform (Eval.evalSequence (Eval.run s.depth) env .unspecified es)
  generalize s.perform (Eval.evalSequence (Eval.run s.depth) env .unspecified es) = answer
    at hlimit
  obtain ⟨_ | v, t⟩ := answer
  · rfl
  · have hdepth : t.depth = s.depth := congrArg (· / 2) hlimit
    simp only [hdepth]
    cases hes : es'.isEmpty with
    | true =>
      rw [List.isEmpty_iff.1 hes]
      rfl
    | false =>
      rw [Eval.evalSequence_of_isEmpty_eq_false _ _ hes v .unspecified]
      rfl

/-- **A text that goes on is evaluated part by part, or not at all.** -/
theorem eval_append {s : Session} {first : String} {es : List Value}
    (h : parse s.limit first.toList = .ok es) (second : String) :
    s.eval (first ++ "\n" ++ second) =
      match parse s.limit second.toList with
      | .ok es' =>
        match s.eval first with
        | (.ok v, t) => if es'.isEmpty then (.ok v, t) else t.eval second
        | (.error e, t) => (.error e, t)
      | .error e => (.error e, s) := by
  have hsource : (first ++ "\n" ++ second).toList = first.toList ++ '\n' :: second.toList := by
    simp [String.toList_append]
  have hfirst : s.eval first = s.evalExprs es globalFrame := by rw [eval, h]
  have hsecond {t : Session} (ht : t.limit = s.limit) :
      t.eval second =
        match parse s.limit second.toList with
        | .ok es' => t.evalExprs es' globalFrame
        | .error e => (.error e, t) := by
    rw [eval, ht]
    cases parse s.limit second.toList <;> rfl
  have hlimit := s.limit_eval first
  rw [eval, hsource, parse_append h]
  cases hparse : parse s.limit second.toList with
  | error e => rfl
  | ok es' =>
    simp only [hparse] at hsecond
    simp only [Except.map, evalExprs_append, ← hfirst]
    generalize s.eval first = answer at hlimit
    obtain ⟨_ | v, t⟩ := answer
    · rfl
    · simp only [hsecond hlimit]

theorem eval_append_unclosed :
    (parse 100 "(define x 1) (display x) ; shown".toList).isOk = true ∧
      (fresh 100).eval ("(define x 1) (display x) ; shown" ++ "\n" ++ "(display") =
        (.error .unclosedList, fresh 100) := by
  have hok : (parse 100 "(define x 1) (display x) ; shown".toList).isOk = true := by
    decide +kernel
  have hfails : parse 100 "(display".toList = .error .unclosedList := by rfl
  refine ⟨hok, ?_⟩
  cases hparse : parse 100 "(define x 1) (display x) ; shown".toList with
  | error e =>
    rw [hparse] at hok
    cases hok
  | ok es =>
    have happ := @eval_append (fresh 100) _ es hparse "(display"
    rwa [show (fresh 100).limit = 100 by rfl, hfails] at happ

end Session

end Scheme
