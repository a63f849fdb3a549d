import Scheme.Eval
import Scheme.Proofs.Room

/-!
# Relations that evaluation respects

A relation that the operations of evaluation respect is respected by evaluation as a whole.
-/

namespace Scheme

/-- The frame that a job is done in. A call by itself is in no frame. -/
def Job.scope : Job → Option FrameId
  | .expr _ env => some env
  | .call _ _ => none

/-- All that it needs of a store is how closures are written. -/
def Store.Described {α : Type} (f : Store → α) : Prop :=
  ∀ s t : Store, s.describe = t.describe → f s = f t

namespace Eval

/-- The relation is respected by everything that evaluation is made of. -/
structure Compatible (R : Option FrameId → (α : Type) → Eval α → Eval α → Prop) : Prop where
  ofPure {α : Type} (scope : Option FrameId) (a : α) : R scope α (pure a) (pure a)
  ofThrow {α : Type} (scope : Option FrameId) (e : Error) : R scope α (throw e) (throw e)
  ofBind {α β : Type} {scope : Option FrameId} {m m' : Eval α} {f f' : α → Eval β} :
    R scope α m m' → (∀ a, R scope β (f a) (f' a)) → R scope β (m >>= f) (m' >>= f')
  /-- What needs no frame can be done in any. -/
  widen {α : Type} {m m' : Eval α} (scope : Option FrameId) : R none α m m' → R scope α m m'
  ofGet {α : Type} {scope : Option FrameId} {f f' : Store → Eval α} :
    Store.Described f → Store.Described f' → (∀ s, R scope α (f s) (f' s)) →
      R scope α (get >>= f) (get >>= f')
  ofLookup (scope : Option FrameId) (x : Symbol) (env : FrameId) :
    R scope Value (lookup x env) (lookup x env)
  ofAssign (scope : Option FrameId) (x : Symbol) (v : Value) (env : FrameId) :
    R scope Unit (assign x v env) (assign x v env)
  ofDefine (x : Symbol) (v : Value) (env : FrameId) :
    R (some env) Unit (define x v env) (define x v env)
  ofDefineNamed (x : Symbol) (v : Value) (env : FrameId) :
    R (some env) Unit (do nameValue v x; define x v env) (do nameValue v x; define x v env)
  ofNewClosure (c : Closure) :
    c.params.Nodup → R (some c.env) Value (newClosure c) (newClosure c)
  ofEmit (scope : Option FrameId) (text : String) : R scope Unit (emit text) (emit text)
  ofNextShared (scope : Option FrameId) : R scope Sharing nextShared nextShared
  /-- A call of a closure, if its body may be evaluated in any frame. -/
  ofCall {room room' : Nat} {run run' : Job → Eval Value} (scope : Option FrameId) (c : ClosureId)
      (args : List Value) :
    (∀ (env : FrameId) (body : List Value), R (some env) Value
      (evalSequence run env .unspecified body) (evalSequence run' env .unspecified body)) →
      R scope Value (call room run (.closure c) args) (call room' run' (.closure c) args)

theorem get_bind_apply {α : Type} (f : Store → Eval α) (s : Store) : (get >>= f) s = f s s := rfl

theorem call_closure_apply (room : Nat) (run : Job → Eval Value) (c : ClosureId)
    (args : List Value) (s : Store) :
    call room run (.closure c) args s =
      match s.closures[c]? with
      | none => .error (.notApplicable (s.write (.closure c))) s
      | some k =>
        if k.params.length = args.length then
          evalSequence run s.frames.size .unspecified k.body
            (s.newFrame (.ofArgs k.env k.params args)).2
        else .error (.closureArity k.name k.params.length args.length) s := by
  unfold call
  simp only
  rw [get_bind_apply]
  cases s.closures[c]? with
  | none => rfl
  | some k =>
    simp only [enter, callFrame]
    by_cases hcount : k.params.length = args.length
    · simp only [if_pos hcount]
      rfl
    · simp only [if_neg hcount]
      rfl

theorem failShowing_apply {α : Type} (room : Nat) (v : Value) (error : String → Error)
    (s : Store) :
    (failShowing room v error : Eval α) s =
      if v.nesting ≤ 2 * room then .error (error (s.shown v)) s else .error .depthExceeded s := by
  unfold failShowing fail
  rw [Value.visit_eq]
  split <;> rfl

theorem fail_bind {α β : Type} (room : Nat) (v : Value) (error : Store → Error)
    (f : α → Eval β) : fail room v error >>= f = fail room v error := by
  unfold fail
  rw [bind_assoc]
  cases v.visit room <;> rfl

theorem makeClosure_eq (room : Nat) (name : Option Symbol) (params : Value) (body : List Value)
    (env : FrameId) :
    makeClosure room name params body env =
      match params.list?.bind symbols? with
      | none => failShowing room params .parameterList
      | some ps =>
        if ps.Nodup then newClosure { name, params := ps, body, env }
        else throw (.duplicateParameter ps) := by
  unfold makeClosure parameters
  cases params.list?.bind symbols? with
  | none => exact fail_bind ..
  | some ps =>
    by_cases hnodup : ps.Nodup
    · simp [hnodup]
    · simp only [if_neg hnodup]
      rfl

variable {R : Option FrameId → (α : Type) → Eval α → Eval α → Prop} (hR : Compatible R)
include hR

/-! ## What does not evaluate anything -/

theorem related_ofExcept {α : Type} (scope : Option FrameId) (r : Except Error α) :
    R scope α (ofExcept r) (ofExcept r) := by
  cases r with
  | ok a => exact hR.ofPure scope a
  | error e => exact hR.ofThrow scope e

omit hR in
/-- The relation is respected where the room changes to this. -/
def Roomy (R : Option FrameId → (α : Type) → Eval α → Eval α → Prop) (room room' : Nat) : Prop :=
  ∀ (scope : Option FrameId) (α : Type) (f : Nat → Except Error α), Limited f →
    R scope α (ofExcept (f room)) (ofExcept (f room'))

theorem roomy_refl (room : Nat) : Roomy R room room :=
  fun scope _ f _ => related_ofExcept hR scope (f room)

variable {room room' : Nat} (hroom : Roomy R room room')
include hroom

theorem related_fail {α : Type} (scope : Option FrameId) (v : Value) (n : Nat)
    {error : Store → Error} (h : Store.Described error) :
    R scope α (fail (n * room) v error) (fail (n * room') v error) := by
  have hthrow : Store.Described fun s => (throw (error s) : Eval α) := by
    intro s t hst
    simp only [h s t hst]
  exact hR.ofBind (hroom scope Unit _ (v.limited_visit.comp_mul n)) fun _ =>
    hR.ofGet hthrow hthrow fun s => hR.ofThrow scope (error s)

theorem related_failShowing {α : Type} (scope : Option FrameId) (error : String → Error)
    (v : Value) : R scope α (failShowing room v error) (failShowing room' v error) :=
  related_fail hR hroom scope v 2 fun s t hst => by simp only [Store.shown, hst]

theorem related_makeClosure (name : Option Symbol) (params : Value) (body : List Value)
    (env : FrameId) :
    R (some env) Value (makeClosure room name params body env)
      (makeClosure room' name params body env) := by
  rw [makeClosure_eq, makeClosure_eq]
  split
  · exact related_failShowing hR hroom _ _ _
  · split
    · rename_i ps _ hnodup
      exact hR.ofNewClosure ⟨name, ps, body, env⟩ hnodup
    · exact hR.ofThrow _ _

/-! ## Sequences -/

variable {run run' : Job → Eval Value} (h : ∀ job, R job.scope Value (run job) (run' job))
include h

omit hroom in
theorem related_evalEach (env : FrameId) (es : List Value) :
    R (some env) (List Value) (evalEach run env es) (evalEach run' env es) := by
  induction es with
  | nil => exact hR.ofPure _ _
  | cons e rest ih =>
    unfold evalEach
    exact hR.ofBind (h (.expr e env)) fun v => hR.ofBind ih fun vs => hR.ofPure _ _

omit hroom in
theorem related_evalSequence (env : FrameId) (last : Value) (es : List Value) :
    R (some env) Value (evalSequence run env last es) (evalSequence run' env last es) := by
  induction es generalizing last with
  | nil => exact hR.ofPure _ _
  | cons e rest ih =>
    unfold evalSequence
    exact hR.ofBind (h (.expr e env)) fun v => ih v

omit hroom in
theorem related_callEach (scope : Option FrameId) (procedure : Value) (vs : List Value) :
    R scope (List Value) (callEach run procedure vs) (callEach run' procedure vs) := by
  induction vs with
  | nil => exact hR.ofPure _ _
  | cons v rest ih =>
    unfold callEach
    exact hR.ofBind (hR.widen scope (h (.call procedure [v]))) fun result =>
      hR.ofBind ih fun results => hR.ofPure _ _

/-! ## Calls -/

theorem related_callPrimitive (scope : Option FrameId) (p : Primitive) (args : List Value) :
    R scope Value (callPrimitive room run p args) (callPrimitive room' run' p args) := by
  refine hR.ofGet ?_ ?_ fun s => ?_
  · intro s t hst
    simp only [Store.display, hst]
  · intro s t hst
    simp only [Store.display, hst]
  · split
    · exact hR.ofBind (related_ofExcept hR scope _) fun items =>
        hR.ofBind (related_callEach hR h scope _ items) fun results => hR.ofPure _ _
    · exact hR.ofBind (related_ofExcept hR scope _) fun items =>
        hR.widen scope (h (.call _ items))
    · rename_i a b
      exact hR.ofBind (hR.ofNextShared scope) fun one =>
        hR.ofBind (hroom scope Bool _ (a.limited_isEqual one [] b)) fun r => hR.ofPure _ _
    · rename_i v
      exact hR.ofBind (hroom scope Unit _ v.limited_visit) fun _ =>
        hR.ofBind (hR.ofEmit scope _) fun _ => hR.ofPure _ _
    · exact hR.ofBind (hR.ofEmit scope _) fun _ => hR.ofPure _ _
    · split
      · exact hroom scope Value _ (Primitive.limited_callNumeric _ _ args)
      · exact related_ofExcept hR scope _

theorem related_call (scope : Option FrameId) (procedure : Value) (args : List Value) :
    R scope Value (call room run procedure args) (call room' run' procedure args) := by
  have hfail (v : Value) : R scope Value (fail room v fun s => .notApplicable (s.write v))
      (fail room' v fun s => .notApplicable (s.write v)) := by
    have hwrite : Store.Described fun s => Error.notApplicable (s.write v) := by
      intro s t hst
      simp only [Store.write, hst]
    have hrelated : R scope Value _ _ := related_fail hR hroom scope v 1 hwrite
    rwa [Nat.one_mul, Nat.one_mul] at hrelated
  cases procedure with
  | primitive p => exact related_callPrimitive hR hroom h scope p args
  | closure c => exact hR.ofCall scope c args fun env => related_evalSequence hR h env .unspecified
  | _ => exact hfail _

/-! ## Forms -/

omit hroom in
theorem related_conditionalForm (env : FrameId) (tail : List Value) :
    R (some env) Value (conditionalForm run env tail) (conditionalForm run' env tail) := by
  unfold conditionalForm
  split
  · refine hR.ofBind (h (.expr _ env)) fun v => ?_
    split
    · exact h (.expr _ env)
    · exact hR.ofPure _ _
  · refine hR.ofBind (h (.expr _ env)) fun v => ?_
    split
    · exact h (.expr _ env)
    · exact h (.expr _ env)
  · exact hR.ofThrow _ _

theorem related_defineForm (env : FrameId) (tail : List Value) :
    R (some env) Value (defineForm room run env tail) (defineForm room' run' env tail) := by
  unfold defineForm
  split
  · exact hR.ofThrow _ _
  · exact hR.ofBind (related_makeClosure hR hroom _ _ _ env) fun c =>
      hR.ofBind (hR.ofDefine _ c env) fun _ => hR.ofPure _ _
  · exact hR.ofThrow _ _
  · rename_i x e
    refine hR.ofBind (h (.expr e env)) fun v => ?_
    have hdefine := hR.ofBind (hR.ofDefineNamed x v env) fun _ => hR.ofPure _ Value.unspecified
    rw [bind_assoc] at hdefine
    exact hdefine
  · exact hR.ofThrow _ _
  · exact related_failShowing hR hroom _ _ _

theorem related_assignForm (env : FrameId) (tail : List Value) :
    R (some env) Value (assignForm room run env tail) (assignForm room' run' env tail) := by
  unfold assignForm
  split
  · exact hR.ofBind (h (.expr _ env)) fun v =>
      hR.ofBind (hR.ofAssign _ _ v env) fun _ => hR.ofPure _ _
  · exact related_failShowing hR hroom _ _ _
  · exact hR.ofThrow _ _

theorem related_bindForm (env : FrameId) (tail : List Value) :
    R (some env) Value (bindForm room run env tail) (bindForm room' run' env tail) := by
  unfold bindForm
  split
  · split
    · exact related_failShowing hR hroom _ _ _
    · exact hR.ofBind (related_makeClosure hR hroom _ _ _ env) fun c =>
        hR.ofBind (related_evalEach hR h env _) fun args => related_call hR hroom h _ c args
  · exact hR.ofThrow _ _

theorem related_chooseForm (env : FrameId) (clauses : List Value) :
    R (some env) Value (chooseForm room run env clauses) (chooseForm room' run' env clauses) := by
  induction clauses with
  | nil => exact hR.ofPure _ _
  | cons clause rest ih =>
    unfold chooseForm
    split
    · contradiction
    · rename_i test body rest' heq
      obtain ⟨rfl, rfl⟩ := List.cons.inj heq
      split
      · split
        · exact related_evalSequence hR h env .unspecified body
        · exact hR.ofThrow _ _
      · refine hR.ofBind (h (.expr test env)) fun v => ?_
        split
        · exact related_evalSequence hR h env v body
        · exact ih
    · exact related_failShowing hR hroom _ _ _

omit hroom in
theorem related_andForm (env : FrameId) (last : Value) (es : List Value) :
    R (some env) Value (andForm run env last es) (andForm run' env last es) := by
  induction es generalizing last with
  | nil => exact hR.ofPure _ _
  | cons e rest ih =>
    unfold andForm
    refine hR.ofBind (h (.expr e env)) fun v => ?_
    split
    · exact ih v
    · exact hR.ofPure _ _

omit hroom in
theorem related_orForm (env : FrameId) (es : List Value) :
    R (some env) Value (orForm run env es) (orForm run' env es) := by
  induction es with
  | nil => exact hR.ofPure _ _
  | cons e rest ih =>
    unfold orForm
    refine hR.ofBind (h (.expr e env)) fun v => ?_
    split
    · exact hR.ofPure _ _
    · exact ih

theorem related_form (keyword : Keyword) (tail : List Value) (env : FrameId) :
    R (some env) Value (form room run keyword tail env) (form room' run' keyword tail env) := by
  cases keyword with
  | quote =>
    simp only [form, quoteForm]
    split
    · exact hR.ofPure _ _
    · exact hR.ofThrow _ _
  | conditional => exact related_conditionalForm hR h env tail
  | define => exact related_defineForm hR hroom h env tail
  | assign => exact related_assignForm hR hroom h env tail
  | lambda =>
    simp only [form, lambdaForm]
    split
    · exact hR.ofThrow _ _
    · exact related_makeClosure hR hroom _ _ _ env
  | begin => exact related_evalSequence hR h env .unspecified tail
  | bind => exact related_bindForm hR hroom h env tail
  | choose => exact related_chooseForm hR hroom h env tail
  | and => exact related_andForm hR h env _ tail
  | or => exact related_orForm hR h env tail

/-! ## Evaluation -/

/-- One step respects the relation if the steps inside it do. -/
theorem related_step (job : Job) : R job.scope Value (step room run job) (step room' run' job) := by
  cases job with
  | call procedure args => exact related_call hR hroom h none procedure args
  | expr e env =>
    simp only [step, Job.scope]
    split
    · exact hR.ofLookup _ _ env
    · exact hR.ofPure _ _
    · exact hR.ofPure _ _
    · exact hR.ofPure _ _
    · exact hR.ofThrow _ _
    · split
      · exact related_form hR hroom h _ _ env
      · exact hR.ofBind (h (.expr _ env)) fun procedure =>
          hR.ofBind (related_evalEach hR h env _) fun args =>
            related_call hR hroom h _ procedure args
    · exact related_failShowing hR hroom _ _ _

omit h hroom in
theorem related_run (depth : Nat) (job : Job) :
    R job.scope Value (Eval.run depth job) (Eval.run depth job) := by
  induction depth generalizing job with
  | zero => exact hR.ofThrow _ _
  | succ depth ih => exact related_step hR (roomy_refl hR depth) ih job

end Eval

end Scheme
