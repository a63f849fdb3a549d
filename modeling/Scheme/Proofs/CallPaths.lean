import Scheme.Proofs.DerivedForms
import Scheme.Proofs.Limits

/-!
# Ways to call

A combination, `apply` and `map` all make the same call.
-/

namespace Scheme

def Primitive.symbol (p : Primitive) : Symbol := ⟨p.name, p.name_ne⟩

/-- No primitive is hidden by a special form. -/
theorem Primitive.ofSymbol?_symbol_eq_none (p : Primitive) : Keyword.ofSymbol? p.symbol = none := by
  cases p with
  | compare r => cases r <;> rfl
  | math f => cases f <;> rfl
  | _ => rfl

/-- In the frame, the name of a primitive stands for the primitive. -/
def Store.Resolves (s : Store) (env : FrameId) (p : Primitive) : Prop :=
  s.lookup p.symbol env = some (.primitive p)

namespace Value

def quoted (v : Value) : Value := form .quote [v]

/-- `((quote p) (quote v) ...)` -/
def quotedCall (p : Value) (vs : List Value) : Value := combination (quoted p) (vs.map quoted)

/-- `(apply (quote p) (quote (v ...)))`, or with `map` in the place of `apply`. -/
def primitiveCall (q : Primitive) (p : Value) (vs : List Value) : Value :=
  combination (.sym q.symbol) [quoted p, quoted (.list vs)]

/-- `(list ((quote p) (quote v)) ...)` -/
def listOfCalls (p : Value) (vs : List Value) : Value :=
  combination (.sym Primitive.list.symbol) (vs.map fun v => quotedCall p [v])

end Value

namespace Eval

open Value

variable {env : FrameId} {s : Store}

/-! ## Quoted operands -/

theorem evaluate_quoted (depth : Nat) (v : Value) (env : FrameId) :
    evaluate (depth + 1) (quoted v) env = pure v := by
  rw [quoted, evaluate_form]
  rfl

theorem evalEach_quoted (depth : Nat) (vs : List Value) :
    evalEach (run (depth + 1)) env (vs.map quoted) = pure vs := by
  induction vs with
  | nil => rfl
  | cons v vs ih =>
    have hv : run (depth + 1) (.expr (quoted v) env) = pure v := evaluate_quoted depth v env
    simp only [List.map_cons, evalEach, hv, ih, pure_bind]

theorem evaluate_quotedCall (depth : Nat) (p : Value) (vs : List Value) (env : FrameId) :
    evaluate (depth + 2) (quotedCall p vs) env = run (depth + 2) (.call p vs) := by
  unfold quotedCall
  rw [evaluate_call rfl, evaluate_quoted, evalEach_quoted, pure_bind, pure_bind]
  rfl

theorem alike_quotedCall (p : Value) (vs : List Value) (env : FrameId) (s : Store) :
    Alike (fun depth => run depth (.call p vs)) (evaluate · (quotedCall p vs) env) s := by
  intro depth
  have hnext := run_extends depth 1 (.call p vs) s
  constructor
  · cases depth with
    | zero => exact .inl ⟨s, rfl⟩
    | succ depth =>
      simp only [evaluate_quotedCall]
      exact hnext
  · match depth with
    | 0 => exact .inl ⟨s, rfl⟩
    | 1 => exact .inl ⟨s, rfl⟩
    | depth + 2 =>
      simp only [evaluate_quotedCall]
      exact hnext

/-! ## Operators that are primitives -/

theorem evaluate_primitive {q : Primitive} (h : s.Resolves env q) (depth : Nat)
    (operands : List Value) :
    evaluate (depth + 2) (combination (.sym q.symbol) operands) env s =
      (evalEach (run (depth + 1)) env operands >>=
        callPrimitive (depth + 1) (run (depth + 1)) q) s := by
  have hlookup : evaluate (depth + 1) (.sym q.symbol) env s = .ok (.primitive q) s := by
    have hsymbol : evaluate (depth + 1) (.sym q.symbol) env = lookup q.symbol env := rfl
    rw [hsymbol, lookup, get_bind_apply, h]
    rfl
  have hsymbol : (Value.sym q.symbol).symbol?.bind Keyword.ofSymbol? = none :=
    q.ofSymbol?_symbol_eq_none
  rw [evaluate_call hsymbol]
  simp only [bind, EStateM.bind, hlookup]
  rfl

theorem evaluate_primitiveCall {q : Primitive} (h : s.Resolves env q) (depth : Nat) (p : Value)
    (vs : List Value) :
    evaluate (depth + 2) (primitiveCall q p vs) env s =
      callPrimitive (depth + 1) (run (depth + 1)) q [p, .list vs] s := by
  have hoperands := @evalEach_quoted env depth [p, .list vs]
  rw [primitiveCall, evaluate_primitive h]
  simp only [List.map_cons, List.map_nil] at hoperands
  rw [hoperands, pure_bind]

theorem alike_apply (h : s.Resolves env .apply) (p : Value) (vs : List Value) :
    Alike (evaluate · (primitiveCall .apply p vs) env) (evaluate · (quotedCall p vs) env) s := by
  refine alike_of_succ rfl rfl (alike_of_succ rfl rfl (alike_congr (fun depth => ?_)
    (fun depth => ?_) (alike_run 1 2 (by decide) (by decide) (.call p vs) s)))
  · exact evaluate_primitiveCall h depth p vs
  · exact congrFun (evaluate_quotedCall depth p vs env) s

/-! ## Call after call -/

theorem alike_callEach (p : Value) (vs : List Value) (env : FrameId) (s : Store) :
    Alike (fun depth => callEach (run depth) p vs)
      (fun depth => evalEach (run depth) env (vs.map fun v => quotedCall p [v])) s := by
  induction vs generalizing s with
  | nil => exact alike_const (pure []) s
  | cons v vs ih =>
    simp only [List.map_cons, evalEach, callEach]
    refine alike_bind (alike_quotedCall p [v] env s) fun result t => ?_
    exact alike_bind (ih t) fun results => alike_const (pure (result :: results))

theorem alike_map (hmap : s.Resolves env .map) (hlist : s.Resolves env .list) (p : Value)
    (vs : List Value) :
    Alike (evaluate · (primitiveCall .map p vs) env) (evaluate · (listOfCalls p vs) env) s := by
  have hcalls : Alike
      (fun depth => do let results ← callEach (run (depth + 1)) p vs; pure (Value.list results))
      (fun depth => do
        let results ← evalEach (run (depth + 1)) env (vs.map fun v => quotedCall p [v])
        pure (Value.list results)) s := by
    refine alike_bind (fun depth => ?_) fun results => alike_const (pure (Value.list results))
    exact alike_callEach p vs env s (depth + 1)
  refine alike_of_succ rfl rfl (alike_of_succ rfl rfl (alike_congr (fun depth => ?_)
    (fun depth => ?_) hcalls))
  · exact evaluate_primitiveCall hmap depth p vs
  · exact evaluate_primitive hlist depth (vs.map fun v => quotedCall p [v])

theorem callEach_append (run : Job → Eval Value) (p : Value) (us vs : List Value) :
    callEach run p (us ++ vs) = (do
      let results ← callEach run p us
      let others ← callEach run p vs
      return results ++ others) := by
  induction us with
  | nil => simp only [List.nil_append, callEach, pure_bind, bind_pure]
  | cons u us ih =>
    simp only [List.cons_append, callEach, ih, bind_assoc, pure_bind]

theorem callEach_of_error {run : Job → Eval Value} {p v : Value} {us results : List Value}
    {s₁ s₂ : Store} {e : Error} (hus : callEach run p us s = .ok results s₁)
    (hv : run (.call p [v]) s₁ = .error e s₂) (ws : List Value) :
    callEach run p (us ++ v :: ws) s = .error e s₂ := by
  rw [callEach_append]
  simp only [callEach, bind, EStateM.bind, hus, hv]

theorem evaluate_map_of_error (h : s.Resolves env .map) {depth : Nat} {p v : Value}
    {us results : List Value} {s₁ s₂ : Store} {e : Error}
    (hus : callEach (run (depth + 1)) p us s = .ok results s₁)
    (hv : run (depth + 1) (.call p [v]) s₁ = .error e s₂) (ws : List Value) :
    evaluate (depth + 2) (primitiveCall .map p (us ++ v :: ws)) env s = .error e s₂ := by
  have hcalls := callEach_of_error hus hv ws
  have hmap : callPrimitive (depth + 1) (run (depth + 1)) .map [p, .list (us ++ v :: ws)] s = (do
      let results ← callEach (run (depth + 1)) p (us ++ v :: ws)
      pure (Value.list results)) s := rfl
  rw [evaluate_primitiveCall h, hmap]
  simp only [bind, EStateM.bind, hcalls]

end Eval

open Eval Value

/-- **However a value is called, it is the same call.** -/
theorem evaluate_callPaths {s : Store} {env : FrameId} (happly : s.Resolves env .apply)
    (hmap : s.Resolves env .map) (hlist : s.Resolves env .list) (p : Value) :
    (∀ vs, Alike (evaluate · (primitiveCall .apply p vs) env)
      (evaluate · (quotedCall p vs) env) s) ∧
    (∀ vs, Alike (evaluate · (primitiveCall .map p vs) env)
      (evaluate · (listOfCalls p vs) env) s) ∧
    ∀ depth us results s₁ v e s₂, callEach (run (depth + 1)) p us s = .ok results s₁ →
      run (depth + 1) (.call p [v]) s₁ = .error e s₂ →
        ∀ ws, evaluate (depth + 2) (primitiveCall .map p (us ++ v :: ws)) env s =
          .error e s₂ := by
  refine ⟨alike_apply happly p, alike_map hmap hlist p, ?_⟩
  intro depth us results s₁ v e s₂ hus hv ws
  exact evaluate_map_of_error hmap hus hv ws

theorem resolves_fresh {q : Primitive} (limit : Nat)
    (h : ({ bindings := Session.initialBindings } : Frame).value? q.symbol =
      some (.primitive q)) : (Session.fresh limit).store.Resolves Session.globalFrame q := by
  have hframe : (Session.fresh limit).store.frames[Session.globalFrame]? =
      some { bindings := Session.initialBindings } := rfl
  rw [Store.Resolves, Store.lookup, Store.search, hframe]
  simp only [h, Option.map_some]

theorem evaluate_callPaths_car :
    let s := (Session.fresh 100).store
    let one : Value := .num (.int 1)
    s.Resolves Session.globalFrame .apply ∧ s.Resolves Session.globalFrame .map ∧
      s.Resolves Session.globalFrame .list ∧
      Alike (evaluate · (primitiveCall .map (.primitive .car) [.list [one], one])
        Session.globalFrame)
        (evaluate · (listOfCalls (.primitive .car) [.list [one], one]) Session.globalFrame) s ∧
      evaluate 3 (primitiveCall .map (.primitive .car) [.list [one], one, .list []])
        Session.globalFrame s = .error (.notAList "car" "1") s := by
  intro s one
  have happly : s.Resolves Session.globalFrame .apply := resolves_fresh 100 rfl
  have hmap : s.Resolves Session.globalFrame .map := resolves_fresh 100 rfl
  have hlist : s.Resolves Session.globalFrame .list := resolves_fresh 100 rfl
  obtain ⟨-, hcalls, hstops⟩ := evaluate_callPaths happly hmap hlist (.primitive .car)
  refine ⟨happly, hmap, hlist, hcalls [.list [one], one], ?_⟩
  exact hstops 1 [.list [one]] [one] s one (.notAList "car" "1") s rfl rfl [.list []]

end Scheme
