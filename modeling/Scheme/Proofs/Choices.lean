import Scheme.Proofs.DerivedForms
import Scheme.Proofs.Limits

/-!
# Choices in terms of one test

`and`, `or` and `cond` do what an `if` does with the first part and the rest.
-/

namespace Scheme

namespace Value

/-- `(if test consequent alternate)` -/
def conditional (test consequent alternate : Value) : Value :=
  form .conditional [test, consequent, alternate]

/-- `(test body ...)` -/
def clause (test : Value) (body : List Value) : Value := .list (test :: body)

theorem symbol?_eq_otherwise_iff {t : Value} :
    t.symbol? = some .otherwise ↔ t = .sym .otherwise := by
  cases t <;> simp [symbol?]

theorem eq_false_of_isTrue {v : Value} (h : v.isTrue = false) : v = .bool false := by
  unfold isTrue at h
  split at h
  · rfl
  · cases h

end Value

namespace Eval

open Value

variable (env : FrameId)

/-! ## One step of each form -/

section Step

variable (depth : Nat)

theorem evaluate_conditional (test consequent alternate : Value) :
    evaluate (depth + 1) (conditional test consequent alternate) env = (do
      let v ← evaluate depth test env
      if v.isTrue then evaluate depth consequent env else evaluate depth alternate env) := by
  rw [conditional, evaluate_form]
  rfl

theorem evaluate_and_cons (e r : Value) (rs : List Value) :
    evaluate (depth + 1) (.form .and (e :: r :: rs)) env = (do
      let v ← evaluate depth e env
      if v.isTrue then evaluate (depth + 1) (.form .and (r :: rs)) env
      else pure (.bool false)) := by
  rw [evaluate_form, evaluate_form]
  rfl

theorem evaluate_or_cons (e : Value) (rs : List Value) :
    evaluate (depth + 1) (.form .or (e :: rs)) env = (do
      let v ← evaluate depth e env
      if v.isTrue then pure v else evaluate (depth + 1) (.form .or rs) env) := by
  rw [evaluate_form, evaluate_form]
  rfl

theorem evaluate_choose_cons {test : Value} (h : test ≠ .sym .otherwise) (body cs : List Value) :
    evaluate (depth + 1) (.form .choose (clause test body :: cs)) env = (do
      let v ← evaluate depth test env
      if v.isTrue then evalSequence (run depth) env v body
      else evaluate (depth + 1) (.form .choose cs) env) := by
  rw [evaluate_form, evaluate_form]
  simp only [form, clause, chooseForm, if_neg (mt symbol?_eq_otherwise_iff.1 h)]
  rfl

theorem evaluate_begin_cons (b : Value) (bs : List Value) (v : Value) :
    evaluate (depth + 1) (.form .begin (b :: bs)) env =
      evalSequence (run depth) env v (b :: bs) := by
  rw [evaluate_form]
  rfl

theorem evaluate_choose_malformed {c : Value} (h : ∀ test body, c ≠ clause test body)
    (cs : List Value) :
    evaluate (depth + 1) (.form .choose (c :: cs)) env =
      failShowing depth c .malformedClause := by
  rw [evaluate_form]
  simp only [form]
  unfold chooseForm
  split
  · contradiction
  · rename_i test body cs' heq
    exact absurd (List.cons.inj heq).1 (h test body)
  · rename_i heq
    obtain ⟨rfl, -⟩ := List.cons.inj heq
    rfl

theorem evaluate_otherwise_cons (body : List Value) (r : Value) (rs : List Value) :
    evaluate (depth + 1) (.form .choose (clause (.sym .otherwise) body :: r :: rs)) env =
      throw .elseNotLast := by
  rw [evaluate_form]
  simp [form, clause, chooseForm, symbol?]

theorem evaluate_otherwise (body : List Value) :
    evaluate depth (.form .choose [clause (.sym .otherwise) body]) env =
      evaluate depth (.form .begin body) env := by
  cases depth with
  | zero => rfl
  | succ depth =>
    rw [evaluate_form, evaluate_form]
    simp [form, clause, chooseForm, symbol?]

theorem bind_isTrue (m : Eval Value) :
    (do let v ← m; if v.isTrue then pure v else pure (.bool false)) = m := by
  have hid (v : Value) :
      (if v.isTrue then pure v else pure (.bool false) : Eval Value) = pure v := by
    split
    · rfl
    · rename_i hv
      have hfalse : v.isTrue = false := by simpa using hv
      rw [eq_false_of_isTrue hfalse]
  simp only [hid, bind_pure]

theorem evaluate_and_single (e : Value) :
    evaluate (depth + 1) (.form .and [e]) env = evaluate depth e env := by
  rw [evaluate_form]
  exact bind_isTrue (evaluate depth e env)

theorem evaluate_or_single (e : Value) :
    evaluate (depth + 1) (.form .or [e]) env = evaluate depth e env := by
  rw [evaluate_form]
  exact bind_isTrue (evaluate depth e env)

end Step

/-! ## The same, depth aside -/

theorem alike_test {m m' : Nat → Eval Value} {f f' g g' : Nat → Value → Eval Value} {s : Store}
    (hm : Alike m m' s) (hf : ∀ v t, Alike (f · v) (f' · v) t)
    (hg : ∀ v t, Alike (g · v) (g' · v) t) :
    Alike (fun depth => do let v ← m depth; if v.isTrue then f depth v else g depth v)
      (fun depth => do let v ← m' depth; if v.isTrue then f' depth v else g' depth v) s := by
  refine alike_bind hm fun v t => ?_
  cases v.isTrue with
  | true => exact hf v t
  | false => exact hg v t

theorem alike_false (s : Store) :
    Alike (fun _ => pure (.bool false)) (evaluate · (.bool false) env) s := by
  intro depth
  cases depth with
  | zero => exact ⟨.inr rfl, .inl ⟨s, rfl⟩⟩
  | succ depth => exact ⟨.inr rfl, .inr rfl⟩

theorem alike_and_single (e : Value) (s : Store) :
    Alike (evaluate · (.form .and [e]) env) (evaluate · e env) s := by
  refine alike_of_succ rfl rfl ?_
  simp only [evaluate_and_single]
  exact alike_evaluate 0 1 (by decide) (by decide) e env s

theorem alike_and_cons (e r : Value) (rs : List Value) (s : Store) :
    Alike (evaluate · (.form .and (e :: r :: rs)) env)
      (evaluate · (conditional e (.form .and (r :: rs)) (.bool false)) env) s := by
  refine alike_of_succ rfl rfl ?_
  simp only [evaluate_and_cons, evaluate_conditional]
  exact alike_test (alike_evaluate 0 0 (by decide) (by decide) e env s)
    (fun _ => alike_evaluate 1 0 (by decide) (by decide) _ env) (fun _ => alike_false env)

theorem alike_or_cons (e : Value) (rs : List Value) (s : Store) :
    Alike (evaluate · (.form .or (e :: rs)) env)
      (fun depth => do
        let v ← evaluate depth e env
        if v.isTrue then pure v else evaluate depth (.form .or rs) env) s := by
  refine alike_of_succ rfl rfl ?_
  simp only [evaluate_or_cons]
  exact alike_test (alike_evaluate 0 1 (by decide) (by decide) e env s)
    (fun v => alike_const (pure v)) (fun _ => alike_evaluate 1 1 (by decide) (by decide) _ env)

theorem alike_choose_body {test : Value} (h : test ≠ .sym .otherwise) (b : Value)
    (bs cs : List Value) (s : Store) :
    Alike (evaluate · (.form .choose (clause test (b :: bs) :: cs)) env)
      (evaluate · (conditional test (.form .begin (b :: bs)) (.form .choose cs)) env) s := by
  refine alike_of_succ rfl rfl ?_
  simp only [evaluate_choose_cons env _ h, evaluate_conditional, ← evaluate_begin_cons]
  exact alike_test (alike_evaluate 0 0 (by decide) (by decide) test env s)
    (fun _ => alike_evaluate 1 0 (by decide) (by decide) _ env)
    (fun _ => alike_evaluate 1 0 (by decide) (by decide) _ env)

theorem alike_choose_test {test : Value} (h : test ≠ .sym .otherwise) (cs : List Value)
    (s : Store) :
    Alike (evaluate · (.form .choose (clause test [] :: cs)) env)
      (evaluate · (.form .or [test, .form .choose cs]) env) s := by
  refine alike_of_succ rfl rfl ?_
  simp only [evaluate_choose_cons env _ h, evaluate_or_cons env _ test, evaluate_or_single,
    evalSequence]
  exact alike_test (alike_evaluate 0 0 (by decide) (by decide) test env s)
    (fun v => alike_const (pure v)) (fun _ => alike_evaluate 1 0 (by decide) (by decide) _ env)

/-! ## What is not reached -/

/-- What stands behind these parts is reached, and is then evaluated as if it stood alone, or it
does not matter what it is. -/
def OnlyIfReached (m : List Value → Eval Value) (es : List Value) (s : Store) : Prop :=
  (∃ t, ∀ r rs, m (es ++ r :: rs) s = m (r :: rs) t) ∨
    ∀ r rs r' rs', m (es ++ r :: rs) s = m (es ++ r' :: rs') s

theorem onlyIfReached_of_single {m : List Value → Eval Value}
    (h : ∀ e s, OnlyIfReached m [e] s) (es : List Value) (s : Store) : OnlyIfReached m es s := by
  induction es generalizing s with
  | nil => exact .inl ⟨s, fun _ _ => rfl⟩
  | cons e es ih =>
    -- Behind the first part there is always something, the other parts or what follows them.
    have hbehind (r : Value) (rs : List Value) : ∃ q qs, es ++ r :: rs = q :: qs := by
      cases es with
      | nil => exact ⟨r, rs, rfl⟩
      | cons q qs => exact ⟨q, qs ++ r :: rs, rfl⟩
    rcases h e s with ⟨t, hreached⟩ | hunreached
    · have hgoes (r : Value) (rs : List Value) :
          m (e :: es ++ r :: rs) s = m (es ++ r :: rs) t := by
        obtain ⟨q, qs, hq⟩ := hbehind r rs
        rw [List.cons_append, hq]
        exact hreached q qs
      unfold OnlyIfReached
      simp only [hgoes]
      exact ih t
    · refine .inr fun r rs r' rs' => ?_
      obtain ⟨q, qs, hq⟩ := hbehind r rs
      obtain ⟨q', qs', hq'⟩ := hbehind r' rs'
      rw [List.cons_append, List.cons_append, hq, hq']
      exact hunreached q qs q' qs'

theorem onlyIfReached_bind {m : List Value → Eval Value} {e : Value} {test : Eval Value}
    {next : Value → Value → List Value → Eval Value}
    (hm : ∀ r rs, m (e :: r :: rs) = test >>= fun v => next v r rs)
    (hnext : ∀ v, (∀ r rs, next v r rs = m (r :: rs)) ∨
      ∀ r rs r' rs', next v r rs = next v r' rs') (s : Store) : OnlyIfReached m [e] s := by
  unfold OnlyIfReached
  simp only [List.cons_append, List.nil_append, hm, bind, EStateM.bind]
  cases test s with
  | ok v t =>
    rcases hnext v with hgoes | hstops
    · exact .inl ⟨t, fun r rs => congrFun (hgoes r rs) t⟩
    · exact .inr fun r rs r' rs' => congrFun (hstops r rs r' rs') t
  | error err t => exact .inr fun _ _ _ _ => rfl

theorem onlyIfReached_and (depth : Nat) (e : Value) (s : Store) :
    OnlyIfReached (fun es => evaluate (depth + 1) (.form .and es) env) [e] s := by
  refine onlyIfReached_bind (fun r rs => evaluate_and_cons env depth e r rs) (fun v => ?_) s
  cases v.isTrue with
  | true => exact .inl fun _ _ => rfl
  | false => exact .inr fun _ _ _ _ => rfl

theorem onlyIfReached_or (depth : Nat) (e : Value) (s : Store) :
    OnlyIfReached (fun es => evaluate (depth + 1) (.form .or es) env) [e] s := by
  refine onlyIfReached_bind (fun r rs => evaluate_or_cons env depth e (r :: rs)) (fun v => ?_) s
  cases v.isTrue with
  | true => exact .inr fun _ _ _ _ => rfl
  | false => exact .inl fun _ _ => rfl

theorem onlyIfReached_choose (depth : Nat) (c : Value) (s : Store) :
    OnlyIfReached (fun cs => evaluate (depth + 1) (.form .choose cs) env) [c] s := by
  by_cases hclause : ∃ test body, c = clause test body
  · obtain ⟨test, body, rfl⟩ := hclause
    by_cases htest : test = .sym .otherwise
    · -- An `else` that is not the last clause is an error of its own.
      subst htest
      refine .inr fun r rs r' rs' => ?_
      simp only [List.cons_append, List.nil_append, evaluate_otherwise_cons]
    · refine onlyIfReached_bind
        (fun r rs => evaluate_choose_cons env depth htest body (r :: rs)) (fun v => ?_) s
      cases v.isTrue with
      | true => exact .inr fun _ _ _ _ => rfl
      | false => exact .inl fun _ _ => rfl
  · have hmalformed := evaluate_choose_malformed env depth fun test body hc =>
      hclause ⟨test, body, hc⟩
    refine .inr fun r rs r' rs' => ?_
    simp only [List.cons_append, List.nil_append, hmalformed]

theorem onlyIfReached {k : Keyword} (hk : k ∈ [.and, .or, .choose]) (es : List Value)
    (depth : Nat) (s : Store) :
    OnlyIfReached (fun es => evaluate depth (.form k es) env) es s := by
  cases depth with
  | zero => exact .inr fun _ _ _ _ => rfl
  | succ depth =>
    simp only [List.mem_cons, List.not_mem_nil, or_false] at hk
    obtain rfl | rfl | rfl := hk
    · exact onlyIfReached_of_single (onlyIfReached_and env depth) es s
    · exact onlyIfReached_of_single (onlyIfReached_or env depth) es s
    · exact onlyIfReached_of_single (onlyIfReached_choose env depth) es s

end Eval

open Eval Value

/-- **`and`, `or` and `cond` are choices by one test after the other.** -/
theorem evaluate_choices (env : FrameId) (s : Store) :
    (∀ e, Alike (evaluate · (.form .and [e]) env) (evaluate · e env) s) ∧
    (∀ e r rs, Alike (evaluate · (.form .and (e :: r :: rs)) env)
      (evaluate · (conditional e (.form .and (r :: rs)) (.bool false)) env) s) ∧
    (∀ e rs, Alike (evaluate · (.form .or (e :: rs)) env)
      (fun depth => do
        let v ← evaluate depth e env
        if v.isTrue then pure v else evaluate depth (.form .or rs) env) s) ∧
    (∀ test, test ≠ .sym .otherwise → ∀ b bs cs,
      Alike (evaluate · (.form .choose (clause test (b :: bs) :: cs)) env)
        (evaluate · (conditional test (.form .begin (b :: bs)) (.form .choose cs)) env) s) ∧
    (∀ test, test ≠ .sym .otherwise → ∀ cs,
      Alike (evaluate · (.form .choose (clause test [] :: cs)) env)
        (evaluate · (.form .or [test, .form .choose cs]) env) s) ∧
    (∀ body depth, evaluate depth (.form .choose [clause (.sym .otherwise) body]) env s =
      evaluate depth (.form .begin body) env s) ∧
    (∀ depth, evaluate (depth + 1) (.form .and []) env s = .ok (.bool true) s ∧
      evaluate (depth + 1) (.form .or []) env s = .ok (.bool false) s ∧
      evaluate (depth + 1) (.form .choose []) env s = .ok .unspecified s) ∧
    ∀ k ∈ [Keyword.and, .or, .choose], ∀ es depth,
      OnlyIfReached (fun es => evaluate depth (.form k es) env) es s := by
  refine ⟨fun e => ?_, fun e r rs => ?_, fun e rs => ?_, fun test h b bs cs => ?_,
    fun test h cs => ?_, fun body depth => ?_, fun depth => ?_, fun k hk es depth => ?_⟩
  · exact alike_and_single env e s
  · exact alike_and_cons env e r rs s
  · exact alike_or_cons env e rs s
  · exact alike_choose_body env h b bs cs s
  · exact alike_choose_test env h cs s
  · rw [evaluate_otherwise]
  · exact ⟨by rw [evaluate_form]; rfl, by rw [evaluate_form]; rfl, by rw [evaluate_form]; rfl⟩
  · exact onlyIfReached env hk es depth s

theorem evaluate_choices_malformedLater :
    let s := (Session.fresh 100).store
    let one : Value := .num (.int 1)
    one ≠ .sym .otherwise ∧
      Alike (evaluate · (.form .choose [clause one [.str "x"], one]) Session.globalFrame)
        (evaluate · (conditional one (.form .begin [.str "x"]) (.form .choose [one]))
          Session.globalFrame) s ∧
      Alike (evaluate · (.form .choose [clause one [], one]) Session.globalFrame)
        (evaluate · (.form .or [one, .form .choose [one]]) Session.globalFrame) s ∧
      Keyword.choose ∈ [Keyword.and, .or, .choose] ∧
      OnlyIfReached (fun cs => evaluate 5 (.form .choose cs) Session.globalFrame)
        [clause one []] s := by
  intro s one
  have htest : one ≠ .sym .otherwise := by simp [one]
  have hkeyword : Keyword.choose ∈ [Keyword.and, .or, .choose] := by decide
  obtain ⟨-, -, -, hbody, hvalue, -, -, hlater⟩ := evaluate_choices Session.globalFrame s
  exact ⟨htest, hbody one htest (.str "x") [] [one], hvalue one htest [one], hkeyword,
    hlater .choose hkeyword [clause one []] 5⟩

end Scheme
