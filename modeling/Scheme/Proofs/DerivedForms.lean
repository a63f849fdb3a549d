import Scheme.Proofs.Limits
import Scheme.Store.Lemmas

/-!
# Forms that stand for others

`let` and the definition of a procedure say nothing that other expressions cannot say.
-/

namespace Scheme

/-! ## Written forms -/

/-- The symbol that a keyword is. -/
def Keyword.symbol : Keyword → Symbol
  | .quote => .quote
  | .conditional => ⟨"if", by decide⟩
  | .define => ⟨"define", by decide⟩
  | .assign => ⟨"set!", by decide⟩
  | .lambda => ⟨"lambda", by decide⟩
  | .begin => ⟨"begin", by decide⟩
  | .bind => ⟨"let", by decide⟩
  | .choose => ⟨"cond", by decide⟩
  | .and => ⟨"and", by decide⟩
  | .or => ⟨"or", by decide⟩

@[simp] theorem Keyword.ofSymbol?_symbol (k : Keyword) : ofSymbol? k.symbol = some k := by
  cases k <;> rfl

theorem Keyword.ofSymbol?_eq_some_iff {x : Symbol} {k : Keyword} :
    ofSymbol? x = some k ↔ x = k.symbol := by
  constructor
  · intro h
    obtain ⟨name, hname⟩ := x
    unfold ofSymbol? at h
    split at h <;> cases h <;> simp_all [symbol, Symbol.quote]
  · rintro rfl
    exact ofSymbol?_symbol k

namespace Value

theorem symbol?_bind_ofSymbol?_eq_some_iff {head : Value} {k : Keyword} :
    head.symbol?.bind Keyword.ofSymbol? = some k ↔ head = .sym k.symbol := by
  cases head <;> simp [symbol?, Keyword.ofSymbol?_eq_some_iff]

def form (k : Keyword) (tail : List Value) : Value := .list (.sym k.symbol :: tail)

/-- A call with expressions for the procedure and its arguments. -/
def combination (operator : Value) (operands : List Value) : Value := .list (operator :: operands)

/-- `(lambda (param ...) body ...)` -/
def lambda (params : List Value) (body : List Value) : Value := form .lambda (.list params :: body)

/-- `(let ((name init) ...) body ...)` -/
def binding (bs : List (Symbol × Value)) (body : List Value) : Value :=
  form .bind (.list (bs.map fun b => .list [.sym b.1, b.2]) :: body)

/-- `(define f e)` -/
def definition (f : Symbol) (e : Value) : Value := form .define [.sym f, e]

/-- `(define (f param ...) body ...)` -/
def procedureDefinition (f : Symbol) (params : List Value) (body : List Value) : Value :=
  form .define (.list (.sym f :: params) :: body)

/-- `((lambda (name ...) body ...) init ...)` -/
def bindingCall (bs : List (Symbol × Value)) (body : List Value) : Value :=
  combination (lambda (bs.map fun b => .sym b.1) body) (bs.map Prod.snd)

end Value

namespace Eval

open Value

theorem step_form (room : Nat) (run : Job → Eval Value) (k : Keyword) (tail : List Value)
    (env : FrameId) :
    step room run (.expr (Value.form k tail) env) = form room run k tail env := by
  unfold step Value.form
  simp [symbol?]

theorem evaluate_form (depth : Nat) (k : Keyword) (tail : List Value) (env : FrameId) :
    evaluate (depth + 1) (Value.form k tail) env = form depth (run depth) k tail env :=
  step_form depth (run depth) k tail env

theorem step_definition (room : Nat) (run : Job → Eval Value) (x : Symbol) (e : Value)
    (env : FrameId) :
    step room run (.expr (.definition x e) env) = (do
      let v ← run (.expr e env)
      nameValue v x
      define x v env
      pure .unspecified) :=
  step_form room run .define [.sym x, e] env

theorem evaluate_call {operator : Value} (h : operator.symbol?.bind Keyword.ofSymbol? = none)
    (depth : Nat) (operands : List Value) (env : FrameId) :
    evaluate (depth + 1) (combination operator operands) env = (do
      let procedure ← evaluate depth operator env
      let args ← evalEach (run depth) env operands
      call depth (run depth) procedure args) := by
  have hstep : evaluate (depth + 1) (combination operator operands) env =
      step depth (run depth) (.expr (.list (operator :: operands)) env) := rfl
  rw [hstep]
  simp only [step, h]
  rfl

/-- An operator that is a list is no keyword. -/
theorem evaluate_combination (depth : Nat) (items operands : List Value) (env : FrameId) :
    evaluate (depth + 1) (combination (.list items) operands) env = (do
      let procedure ← evaluate depth (.list items) env
      let args ← evalEach (run depth) env operands
      call depth (run depth) procedure args) :=
  evaluate_call rfl depth operands env

theorem evaluate_lambda (depth : Nat) (params body : List Value) (env : FrameId) :
    evaluate (depth + 1) (lambda params body) env =
      makeClosure depth none (.list params) body env := by
  rw [Value.lambda, evaluate_form]
  rfl

/-- Only to show what is no parameter list takes room. -/
theorem makeClosure_room {params : List Value} {ps : List Symbol} (h : symbols? params = some ps)
    (room room' : Nat) (name : Option Symbol) (body : List Value) (env : FrameId) :
    makeClosure room name (.list params) body env =
      makeClosure room' name (.list params) body env := by
  simp only [makeClosure_eq, Value.list?, Option.bind_some, h]

theorem symbols?_map_sym (xs : List Symbol) : symbols? (xs.map .sym) = some xs := by
  induction xs with
  | nil => rfl
  | cons x xs ih =>
    simp only [List.map_cons, symbols?, ih]
    rfl

/-! ## Bindings -/

theorem bindings_eq (bs : List (Symbol × Value)) :
    bindings (bs.map fun b => .list [.sym b.1, b.2]) =
      .ok (bs.map fun b => .sym b.1, bs.map Prod.snd) := by
  induction bs with
  | nil => rfl
  | cons b bs ih =>
    simp only [List.map_cons, bindings, ih]
    rfl

end Eval

open Eval

/-- **`let` is a call of a closure that is made for it.** -/
theorem evaluate_binding (bs : List (Symbol × Value)) (body : List Value) (env : FrameId) :
    (∀ depth, evaluate (depth + 2) (.binding bs body) env =
      evaluate (depth + 2) (.bindingCall bs body) env) ∧
    ∀ s, (∃ t, evaluate 0 (.bindingCall bs body) env s = .error .depthExceeded t) ∧
      ∃ t, evaluate 1 (.bindingCall bs body) env s = .error .depthExceeded t := by
  constructor
  · intro depth
    calc evaluate (depth + 2) (.binding bs body) env
        = (do
            let c ← makeClosure (depth + 1) none (.list (bs.map fun b => .sym b.1)) body env
            let args ← evalEach (run (depth + 1)) env (bs.map Prod.snd)
            call (depth + 1) (run (depth + 1)) c args) := by
          rw [Value.binding, evaluate_form]
          simp only [form, bindForm, bindings_eq]
      _ = evaluate (depth + 2) (.bindingCall bs body) env := by
          have hnames : symbols? (bs.map fun b => .sym b.1) = some (bs.map Prod.fst) := by
            rw [← symbols?_map_sym, List.map_map]
            rfl
          rw [makeClosure_room hnames (depth + 1) depth, ← evaluate_lambda depth]
          exact (evaluate_combination (depth + 1) _ _ env).symm
  · intro s
    exact ⟨⟨s, rfl⟩, s, rfl⟩

example : parse 3 "(let ((x 1) (x 2)) x)".toList =
    .ok [.binding [(⟨"x", by decide⟩, .num (.int 1)), (⟨"x", by decide⟩, .num (.int 2))]
      [.sym ⟨"x", by decide⟩]] := by
  rfl

example : parse 3 "((lambda (x) x) 1)".toList =
    .ok [.bindingCall [(⟨"x", by decide⟩, .num (.int 1))] [.sym ⟨"x", by decide⟩]] := by
  rfl

/-! ## Definitions of procedures -/

namespace Eval

variable (f : Symbol) (params body : List Value) (env : FrameId)

theorem evaluate_procedureDefinition_apply (depth : Nat) (s : Store) :
    evaluate (depth + 1) (.procedureDefinition f params body) env s =
      match symbols? params with
      | none =>
        if (Value.list params).nesting ≤ 2 * depth then
          .error (.parameterList (s.shown (.list params))) s
        else .error .depthExceeded s
      | some ps =>
        if ps.Nodup then
          .ok .unspecified
            ((s.newClosure ⟨some f, ps, body, env⟩).2.define env f (.closure s.closures.size))
        else .error (.duplicateParameter ps) s := by
  have hform : evaluate (depth + 1) (.procedureDefinition f params body) env = (do
      let c ← makeClosure depth (some f) (.list params) body env
      define f c env
      pure .unspecified) := by
    rw [Value.procedureDefinition, evaluate_form]
    rfl
  rw [hform, makeClosure_eq]
  simp only [Value.list?, Option.bind_some]
  cases symbols? params with
  | none =>
    simp only [failShowing, fail_bind]
    exact failShowing_apply ..
  | some ps =>
    simp only
    split <;> rfl

theorem evaluate_definition_lambda (depth : Nat) :
    evaluate (depth + 2) (.definition f (.lambda params body)) env =
      evaluate (depth + 1) (.procedureDefinition f params body) env := by
  have hform : evaluate (depth + 2) (.definition f (.lambda params body)) env = (do
      let c ← makeClosure depth none (.list params) body env
      nameValue c f
      define f c env
      pure .unspecified) := by
    rw [← evaluate_lambda depth]
    exact step_definition (depth + 1) (run (depth + 1)) f (.lambda params body) env
  funext s
  rw [hform, evaluate_procedureDefinition_apply, makeClosure_eq]
  simp only [Value.list?, Option.bind_some]
  cases symbols? params with
  | none =>
    simp only [failShowing, fail_bind]
    exact failShowing_apply ..
  | some ps =>
    simp only
    split
    · have hnamed := s.nameClosure_newClosure ⟨none, ps, body, env⟩ f
      have hbound := congrArg (·.define env f (.closure s.closures.size)) hnamed
      exact congrArg (EStateM.Result.ok Value.unspecified) hbound
    · rfl

end Eval

/-- **A definition of a procedure is a definition of a `lambda`.** -/
theorem evaluate_procedureDefinition (f : Symbol) (params body : List Value) (env : FrameId) :
    (∀ depth, evaluate (depth + 2) (.definition f (.lambda params body)) env =
      evaluate (depth + 1) (.procedureDefinition f params body) env) ∧
    (∀ depth s,
      (∃ t, evaluate depth (.definition f (.lambda params body)) env s =
        .error .depthExceeded t) ∨
      evaluate depth (.procedureDefinition f params body) env s =
        evaluate depth (.definition f (.lambda params body)) env s) ∧
    (∀ depth s, evaluate (depth + 1) (.procedureDefinition f params body) env s =
      match symbols? params with
      | none =>
        if (Value.list params).nesting ≤ 2 * depth then
          .error (.parameterList (s.shown (.list params))) s
        else .error .depthExceeded s
      | some ps =>
        if ps.Nodup then
          .ok .unspecified
            ((s.newClosure ⟨some f, ps, body, env⟩).2.define env f (.closure s.closures.size))
        else .error (.duplicateParameter ps) s) ∧
    ∀ s, (∃ t, evaluate 0 (.definition f (.lambda params body)) env s =
        .error .depthExceeded t) ∧
      ∃ t, evaluate 1 (.definition f (.lambda params body)) env s = .error .depthExceeded t := by
  have hlambda := evaluate_definition_lambda f params body env
  refine ⟨hlambda, fun depth s => ?_, ?_, fun s => ⟨⟨s, rfl⟩, s, rfl⟩⟩
  · match depth with
    | 0 => exact Or.inl ⟨s, rfl⟩
    | 1 => exact Or.inl ⟨s, rfl⟩
    | depth + 2 =>
      rw [hlambda]
      exact run_extends (depth + 1) 1 (.expr (.procedureDefinition f params body) env) s
  · exact evaluate_procedureDefinition_apply f params body env

example : parse 4 "(define (f x x) 1)".toList =
    .ok [.procedureDefinition ⟨"f", by decide⟩ [.sym ⟨"x", by decide⟩, .sym ⟨"x", by decide⟩]
      [.num (.int 1)]] := by
  rfl

example : parse 4 "(define f (lambda (x x) 1))".toList =
    .ok [.definition ⟨"f", by decide⟩
      (.lambda [.sym ⟨"x", by decide⟩, .sym ⟨"x", by decide⟩] [.num (.int 1)])] := by
  rfl

end Scheme
