import Scheme.Proofs.DerivedForms
import Scheme.Proofs.Trace

/-!
# The parts of a job

A step of evaluation is put together from jobs and operations that leave closures alone.
-/

namespace Scheme

/-- There may be new closures, but those that there were are the same. -/
def Store.AddsClosures (s t : Store) : Prop :=
  ∀ (c : ClosureId) (k : Closure), s.closures[c]? = some k → t.closures[c]? = some k

theorem Store.AddsClosures.trans {s t u : Store} (h : s.AddsClosures t) (h' : t.AddsClosures u) :
    s.AddsClosures u :=
  fun c k hk => h' c k (h c k hk)

namespace Eval

abbrev Runner := Job → Eval Value

variable {α β : Type}

/-! ## Doing a job as a part -/

/-- The two may differ in what comes of `job` from `t`, and in nothing else. -/
def AgreeExcept (job : Job) (t : Store) (run run' : Runner) : Prop :=
  ∀ job' t', (job', t') ≠ (job, t) → run' job' t' = run job' t'

/-- From `s` the computation does `job` from `t`: if `job` ended in an error there, whichever it is,
so would the computation. -/
def Does (m : Runner → Eval α) (run : Runner) (s : Store) (job : Job) (t : Store) : Prop :=
  ∀ run' e u, AgreeExcept job t run run' → run' job t = .error e u → m run' s = .error e u

/-- `During depth job s depth' job' s'`: to do `job` from `s` in `depth` levels is, or takes, to do
`job'` from `s'` in `depth'` levels. -/
inductive During : Nat → Job → Store → Nat → Job → Store → Prop where
  | itself (depth : Nat) (job : Job) (s : Store) : During depth job s depth job s
  | part {depth depth' : Nat} {job part job' : Job} {s t s' : Store}
      (does : Does (step depth · job) (run depth) s part t)
      (rest : During depth part t depth' job' s') : During (depth + 1) job s depth' job' s'

/-! ## Operations that keep closures -/

/-- The computation leaves the closures that there are as they are. -/
def Quiet (m : Eval α) : Prop := ∀ s : Store, s.AddsClosures (m.after s)

theorem Quiet.of_closures_eq {m : Eval α} (h : ∀ s, (m.after s).closures = s.closures) :
    Quiet m := by
  intro s c k hk
  rw [h s]
  exact hk

theorem Quiet.bind {m : Eval α} {f : α → Eval β} (hm : Quiet m) (hf : ∀ a, Quiet (f a)) :
    Quiet (m >>= f) :=
  after_bind_of_trans (R := Store.AddsClosures) Store.AddsClosures.trans hm hf

theorem quiet_pure (a : α) : Quiet (pure a : Eval α) := .of_closures_eq fun _ => rfl

theorem quiet_throw (e : Error) : Quiet (throw e : Eval α) := .of_closures_eq fun _ => rfl

theorem quiet_get : Quiet (get : Eval Store) := .of_closures_eq fun _ => rfl

theorem quiet_ofExcept (r : Except Error α) : Quiet (ofExcept r) := by
  cases r with
  | ok a => exact quiet_pure a
  | error e => exact quiet_throw e

theorem quiet_fail (room : Nat) (v : Value) (error : Store → Error) :
    Quiet (fail room v error : Eval α) :=
  (quiet_ofExcept _).bind fun _ => quiet_get.bind fun _ => quiet_throw _

theorem quiet_lookup (x : Symbol) (env : FrameId) : Quiet (lookup x env) := by
  refine quiet_get.bind fun s => ?_
  split
  · exact quiet_pure _
  · exact quiet_throw _

theorem quiet_define (x : Symbol) (v : Value) (env : FrameId) : Quiet (define x v env) :=
  .of_closures_eq fun _ => rfl

theorem quiet_assign (x : Symbol) (v : Value) (env : FrameId) : Quiet (assign x v env) := by
  refine quiet_get.bind fun s => ?_
  split
  · exact .of_closures_eq fun _ => rfl
  · exact quiet_throw _

theorem quiet_emit (text : String) : Quiet (emit text) := .of_closures_eq fun _ => rfl

theorem quiet_nextShared : Quiet nextShared := .of_closures_eq fun _ => rfl

theorem quiet_callFrame (k : Closure) (args : List Value) : Quiet (callFrame k args) := by
  unfold callFrame
  split
  · exact .of_closures_eq fun _ => rfl
  · exact quiet_throw _

theorem quiet_newClosure (k : Closure) : Quiet (newClosure k) := by
  intro s c k' hk'
  have hc := (Array.getElem?_eq_some_iff.1 hk').1
  exact (s.closures_newClosure k hc).trans hk'

theorem quiet_makeClosure (room : Nat) (name : Option Symbol) (params : Value)
    (body : List Value) (env : FrameId) : Quiet (makeClosure room name params body env) := by
  rw [makeClosure_eq]
  split
  · exact quiet_fail _ _ _
  · split
    · exact quiet_newClosure _
    · exact quiet_throw _

/-! ## Computations put together from jobs -/

/-- A computation that is put together from jobs and from quiet operations. -/
inductive Composed : {α : Type} → (Runner → Eval α) → Prop where
  | quiet {α : Type} {m : Eval α} (h : Quiet m) : Composed fun _ => m
  | job (job : Job) : Composed fun run => run job
  | bind {α β : Type} {m : Runner → Eval α} {f : α → Runner → Eval β}
      (hm : Composed m) (hf : ∀ a, Composed (f a)) : Composed fun run => m run >>= (f · run)

/-- If a part ends in an error, so does the computation. -/
theorem Composed.error_or_eq {m : Runner → Eval α} (hm : Composed m) {run run' : Runner}
    {job : Job} {t : Store} (hagree : AgreeExcept job t run run') {e : Error} {u : Store}
    (herror : run' job t = .error e u) (s : Store) :
    m run' s = .error e u ∨ m run' s = m run s := by
  induction hm generalizing s with
  | quiet => exact .inr rfl
  | job job' =>
    by_cases h : (job', s) = (job, t)
    · obtain ⟨rfl, rfl⟩ := Prod.mk.inj h
      exact .inl herror
    · exact .inr (hagree job' s h)
  | @bind α β m f _ _ ihm ihf =>
    simp only [Bind.bind, EStateM.bind]
    obtain h | h := ihm s
    · exact .inl (by rw [h])
    · rw [h]
      cases m run s with
      | ok a s₁ => exact ihf a s₁
      | error => exact .inr rfl

variable {m : Runner → Eval α} {f : α → Runner → Eval β} {run run' : Runner} {s t : Store}
  {job : Job}

theorem does_job (job : Job) (run : Runner) (s : Store) : Does (fun run => run job) run s job s :=
  fun _ _ _ _ herror => herror

theorem Does.bind_left (h : Does m run s job t) :
    Does (fun run => m run >>= (f · run)) run s job t := by
  intro run' e u hagree herror
  simp only [Bind.bind, EStateM.bind]
  rw [h run' e u hagree herror]

theorem Does.bind_right (hm : Composed m) {a : α} {s₁ : Store} (hok : m run s = .ok a s₁)
    (h : Does (f a) run s₁ job t) : Does (fun run => m run >>= (f · run)) run s job t := by
  intro run' e u hagree herror
  simp only [Bind.bind, EStateM.bind]
  obtain hfirst | hfirst := hm.error_or_eq hagree herror s
  · rw [hfirst]
  · rw [hfirst, hok]
    exact h run' e u hagree herror

/-! ## Steps -/

variable (room : Nat)

theorem composed_evalEach (env : FrameId) (es : List Value) :
    Composed fun run => evalEach run env es := by
  induction es with
  | nil => exact .quiet (quiet_pure _)
  | cons e rest ih => exact .bind (.job _) fun v => .bind ih fun vs => .quiet (quiet_pure _)

theorem composed_evalSequence (env : FrameId) (last : Value) (es : List Value) :
    Composed fun run => evalSequence run env last es := by
  induction es generalizing last with
  | nil => exact .quiet (quiet_pure _)
  | cons e rest ih => exact .bind (.job _) ih

theorem composed_callEach (procedure : Value) (vs : List Value) :
    Composed fun run => callEach run procedure vs := by
  induction vs with
  | nil => exact .quiet (quiet_pure _)
  | cons v rest ih =>
    exact .bind (.job _) fun result => .bind ih fun results => .quiet (quiet_pure _)

theorem composed_callPrimitive (p : Primitive) (args : List Value) :
    Composed fun run => callPrimitive room run p args := by
  refine .bind (.quiet quiet_get) fun s => ?_
  split
  · exact .bind (.quiet (quiet_ofExcept _)) fun items =>
      .bind (composed_callEach _ items) fun results => .quiet (quiet_pure _)
  · exact .bind (.quiet (quiet_ofExcept _)) fun items => .job _
  · exact .quiet (quiet_nextShared.bind fun one =>
      (quiet_ofExcept _).bind fun r => quiet_pure _)
  · exact .quiet ((quiet_ofExcept _).bind fun _ => (quiet_emit _).bind fun _ => quiet_pure _)
  · exact .quiet ((quiet_emit _).bind fun _ => quiet_pure _)
  · split
    · exact .quiet (quiet_ofExcept _)
    · exact .quiet (quiet_ofExcept _)

theorem composed_call (procedure : Value) (args : List Value) :
    Composed fun run => call room run procedure args := by
  have hfail (v : Value) :
      Composed fun _ => (fail room v fun s => .notApplicable (s.write v) : Eval Value) :=
    .quiet (quiet_fail _ _ _)
  cases procedure with
  | primitive p => exact composed_callPrimitive room p args
  | closure c =>
    refine .bind (.quiet quiet_get) fun s => ?_
    split
    · rename_i k _
      exact .bind (.quiet (quiet_callFrame k args)) fun env =>
        composed_evalSequence env .unspecified k.body
    · exact hfail _
  | _ => exact hfail _

theorem composed_conditionalForm (env : FrameId) (tail : List Value) :
    Composed fun run => conditionalForm run env tail := by
  unfold conditionalForm
  split
  · refine .bind (.job _) fun v => ?_
    split
    · exact .job _
    · exact .quiet (quiet_pure _)
  · refine .bind (.job _) fun v => ?_
    split
    · exact .job _
    · exact .job _
  · exact .quiet (quiet_throw _)

theorem composed_assignForm (env : FrameId) (tail : List Value) :
    Composed fun run => assignForm room run env tail := by
  unfold assignForm
  split
  · exact .bind (.job _) fun v => .quiet ((quiet_assign _ v env).bind fun _ => quiet_pure _)
  · exact .quiet (quiet_fail _ _ _)
  · exact .quiet (quiet_throw _)

theorem composed_bindForm (env : FrameId) (tail : List Value) :
    Composed fun run => bindForm room run env tail := by
  unfold bindForm
  split
  · split
    · exact .quiet (quiet_fail _ _ _)
    · exact .bind (.quiet (quiet_makeClosure _ _ _ _ env)) fun c =>
        .bind (composed_evalEach env _) fun args => composed_call room c args
  · exact .quiet (quiet_throw _)

theorem composed_chooseForm (env : FrameId) (clauses : List Value) :
    Composed fun run => chooseForm room run env clauses := by
  induction clauses with
  | nil => exact .quiet (quiet_pure _)
  | cons clause rest ih =>
    unfold chooseForm
    split
    · contradiction
    · rename_i test body rest' heq
      obtain ⟨rfl, rfl⟩ := List.cons.inj heq
      split
      · split
        · exact composed_evalSequence env .unspecified body
        · exact .quiet (quiet_throw _)
      · refine .bind (.job _) fun v => ?_
        split
        · exact composed_evalSequence env v body
        · exact ih
    · exact .quiet (quiet_fail _ _ _)

theorem composed_andForm (env : FrameId) (last : Value) (es : List Value) :
    Composed fun run => andForm run env last es := by
  induction es generalizing last with
  | nil => exact .quiet (quiet_pure _)
  | cons e rest ih =>
    refine .bind (.job _) fun v => ?_
    split
    · exact ih v
    · exact .quiet (quiet_pure _)

theorem composed_orForm (env : FrameId) (es : List Value) :
    Composed fun run => orForm run env es := by
  induction es with
  | nil => exact .quiet (quiet_pure _)
  | cons e rest ih =>
    refine .bind (.job _) fun v => ?_
    split
    · exact .quiet (quiet_pure _)
    · exact ih

theorem composed_defineForm (env : FrameId) (tail : List Value) :
    (Composed fun run => defineForm room run env tail) ∨ ∃ x e, tail = [.sym x, e] := by
  unfold defineForm
  split
  · exact .inl (.quiet (quiet_throw _))
  · exact .inl (.quiet ((quiet_makeClosure _ _ _ _ env).bind fun c =>
      (quiet_define _ c env).bind fun _ => quiet_pure _))
  · exact .inl (.quiet (quiet_throw _))
  · rename_i x e
    exact .inr ⟨x, e, rfl⟩
  · exact .inl (.quiet (quiet_throw _))
  · exact .inl (.quiet (quiet_fail _ _ _))

theorem composed_form (keyword : Keyword) (tail : List Value) (env : FrameId) :
    (Composed fun run => form room run keyword tail env) ∨
      ∃ x e, keyword = .define ∧ tail = [.sym x, e] := by
  cases keyword with
  | define => exact (composed_defineForm room env tail).imp_right fun ⟨x, e, h⟩ => ⟨x, e, rfl, h⟩
  | quote =>
    simp only [form, quoteForm]
    split
    · exact .inl (.quiet (quiet_pure _))
    · exact .inl (.quiet (quiet_throw _))
  | conditional => exact .inl (composed_conditionalForm env tail)
  | assign => exact .inl (composed_assignForm room env tail)
  | lambda =>
    simp only [form, lambdaForm]
    split
    · exact .inl (.quiet (quiet_throw _))
    · exact .inl (.quiet (quiet_makeClosure _ _ _ _ env))
  | begin => exact .inl (composed_evalSequence env .unspecified tail)
  | bind => exact .inl (composed_bindForm room env tail)
  | choose => exact .inl (composed_chooseForm room env tail)
  | and => exact .inl (composed_andForm env _ tail)
  | or => exact .inl (composed_orForm env tail)

theorem composed_step (job : Job) :
    Composed (step room · job) ∨ ∃ x e env, job = .expr (.definition x e) env := by
  cases job with
  | call procedure args => exact .inl (composed_call room procedure args)
  | expr e env =>
    simp only [step]
    split
    · exact .inl (.quiet (quiet_lookup _ env))
    · exact .inl (.quiet (quiet_pure _))
    · exact .inl (.quiet (quiet_pure _))
    · exact .inl (.quiet (quiet_pure _))
    · exact .inl (.quiet (quiet_throw _))
    · rename_i head tail
      split
      · rename_i keyword hkeyword
        obtain rfl := Value.symbol?_bind_ofSymbol?_eq_some_iff.1 hkeyword
        obtain h | ⟨x, e, rfl, rfl⟩ := composed_form room keyword tail env
        · exact .inl h
        · exact .inr ⟨x, e, env, rfl⟩
      · exact .inl (.bind (.job _) fun procedure =>
          .bind (composed_evalEach env tail) fun args => composed_call room procedure args)
    · exact .inl (.quiet (quiet_fail _ _ _))

theorem does_definition (run : Runner) (x : Symbol) (e : Value) (env : FrameId) (s : Store) :
    Does (step room · (.expr (.definition x e) env)) run s (.expr e env) s := by
  have hdoes := (does_job (.expr e env) run s).bind_left
    (f := fun v _ => do nameValue v x; define x v env; pure Value.unspecified)
  simpa only [step_definition] using hdoes

end Eval

end Scheme
