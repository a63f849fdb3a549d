import Scheme.Proofs.Compatible
import Scheme.Store.Lemmas

/-!
# What evaluation does to the store

Evaluation changes the store step by step, and what every step keeps, it keeps.
-/

namespace Scheme

namespace Store

/-- A single change. The scope is the frame that is evaluated in, if there is one: a call by itself
is in no frame. -/
inductive Change (scope : Option FrameId) : Store → Store → Prop where
  | define {s : Store} {env : FrameId} (here : scope = some env) (x : Symbol) (v : Value) :
      Change scope s (s.define env x v)
  /-- A definition of a closure gives it its name. -/
  | defineClosure {s : Store} {env : FrameId} (here : scope = some env) (x : Symbol)
      (c : ClosureId) : Change scope s ((s.nameClosure c x).define env x (.closure c))
  | assign {s : Store} {x : Symbol} {env i : FrameId} (bound : s.find x env = some i) (v : Value) :
      Change scope s (s.define i x v)
  | close {s : Store} {c : Closure} (here : scope = some c.env) (distinct : c.params.Nodup) :
      Change scope s (s.newClosure c).2
  | emit {s : Store} (text : String) : Change scope s (s.emit text)
  | nextShared {s : Store} : Change scope s s.nextShared.2

/-- A sequence of changes, and of calls with what is done in their frames. -/
inductive Trace : Option FrameId → Store → Store → Prop where
  | refl {scope : Option FrameId} {s : Store} : Trace scope s s
  | change {scope : Option FrameId} {s s₁ s₂ : Store} (first : Change scope s s₁)
      (rest : Trace scope s₁ s₂) : Trace scope s s₂
  | enter {scope : Option FrameId} {s s₁ s₂ : Store} {id : ClosureId} {c : Closure}
      {args : List Value} (found : s.closures[id]? = some c)
      (count : c.params.length = args.length)
      (body : Trace (some s.frames.size) (s.newFrame (.ofArgs c.env c.params args)).2 s₁)
      (rest : Trace scope s₁ s₂) : Trace scope s s₂

theorem Trace.trans {scope : Option FrameId} {s s₁ s₂ : Store} (h : Trace scope s s₁)
    (h' : Trace scope s₁ s₂) : Trace scope s s₂ := by
  induction h with
  | refl => exact h'
  | change first _ ih => exact .change first (ih h')
  | enter found count body _ _ ih => exact .enter found count body (ih h')

theorem Trace.single {scope : Option FrameId} {s s₁ : Store} (h : Change scope s s₁) :
    Trace scope s s₁ := .change h .refl

theorem Change.widen {s s₁ : Store} (h : Change none s s₁) (scope : Option FrameId) :
    Change scope s s₁ := by
  cases h with
  | define here => simp at here
  | defineClosure here => simp at here
  | assign bound v => exact .assign bound v
  | close here => simp at here
  | emit text => exact .emit text
  | nextShared => exact .nextShared

theorem Trace.widen {s s₁ : Store} (h : Trace none s s₁) (scope : Option FrameId) :
    Trace scope s s₁ := by
  generalize hn : (none : Option FrameId) = outside at h
  induction h with
  | refl => exact .refl
  | change first _ ih =>
    subst hn
    exact .change (first.widen scope) (ih rfl)
  | enter found count body _ _ ih => exact .enter found count body (ih hn)

/-! ## What every step keeps -/

/-- Frames that there are keep their outer frames and their names, in order. Only the frame of the
scope may get new names, behind the old ones. -/
def KeepsNames (scope : Option FrameId) (s s' : Store) : Prop :=
  ∀ (i : FrameId) (f : Frame), s.frames[i]? = some f → ∃ f', s'.frames[i]? = some f' ∧
    f'.outer = f.outer ∧ f.names <+: f'.names ∧ (scope ≠ some i → f'.names = f.names)

variable {scope : Option FrameId} {s s₁ s₂ : Store}

theorem KeepsNames.of_frames_eq (h : s₁.frames = s.frames) : KeepsNames scope s s₁ := by
  intro i f hf
  rw [← h] at hf
  exact ⟨f, hf, rfl, List.prefix_refl _, fun _ => rfl⟩

theorem KeepsNames.trans (h : KeepsNames scope s s₁) (h' : KeepsNames scope s₁ s₂) :
    KeepsNames scope s s₂ := by
  intro i f hf
  obtain ⟨f₁, hf₁, houter₁, hnames₁, hsame₁⟩ := h i f hf
  obtain ⟨f₂, hf₂, houter₂, hnames₂, hsame₂⟩ := h' i f₁ hf₁
  refine ⟨f₂, hf₂, houter₂.trans houter₁, hnames₁.trans hnames₂, fun hi => ?_⟩
  exact (hsame₂ hi).trans (hsame₁ hi)

theorem keepsNames_define {env : FrameId} {x : Symbol} (v : Value)
    (h : scope = some env ∨ ∀ f, s.frames[env]? = some f → x ∈ f.names) :
    KeepsNames scope s (s.define env x v) := by
  intro i f hf
  by_cases hi : env = i
  · subst hi
    refine ⟨f.define x v, by simp [frames_define, hf], rfl, ?_, fun hscope => ?_⟩
    · rw [Frame.names_define]
      split
      · exact List.prefix_refl _
      · exact List.prefix_append _ _
    · obtain rfl | hbound := h
      · exact absurd rfl hscope
      · rw [Frame.names_define, if_pos (hbound f hf)]
  · exact ⟨f, by rw [frames_define, if_neg hi, hf], rfl, List.prefix_refl _, fun _ => rfl⟩

theorem search_bound {x : Symbol} {env i : FrameId} {v : Value}
    (h : s.search x env = some (i, v)) : ∃ f, s.frames[i]? = some f ∧ f.value? x = some v := by
  fun_induction search s x env with
  | case1 => simp at h
  | case2 env f hf w hw =>
    obtain ⟨rfl, rfl⟩ := h
    exact ⟨f, hf, hw⟩
  | case3 => simp at h
  | case4 env f hf hw outer houter hlt ih => exact ih h
  | case5 => simp at h

theorem find_bound {x : Symbol} {env i : FrameId} (h : s.find x env = some i) :
    ∃ f, s.frames[i]? = some f ∧ x ∈ f.names := by
  obtain ⟨⟨j, v⟩, hsearch, rfl⟩ := Option.map_eq_some_iff.1 h
  obtain ⟨f, hf, hv⟩ := search_bound hsearch
  refine ⟨f, hf, Frame.isSome_value?_iff.1 ?_⟩
  rw [hv]
  rfl

theorem Change.keepsNames (h : Change scope s s₁) : KeepsNames scope s s₁ := by
  cases h with
  | define here x v => exact keepsNames_define v (.inl here)
  | defineClosure here x c =>
    exact (KeepsNames.of_frames_eq rfl).trans (keepsNames_define _ (.inl here))
  | assign bound v =>
    obtain ⟨f, hf, hx⟩ := find_bound bound
    refine keepsNames_define v (.inr fun g hg => ?_)
    obtain rfl : f = g := Option.some.inj (hf.symm.trans hg)
    exact hx
  | close => exact .of_frames_eq rfl
  | emit => exact .of_frames_eq rfl
  | nextShared => exact .of_frames_eq rfl

theorem Trace.keepsNames (h : Trace scope s s₁) : KeepsNames scope s s₁ := by
  induction h with
  | refl => exact .of_frames_eq rfl
  | change first _ ih => exact first.keepsNames.trans ih
  | enter found count _ _ ihbody ihrest =>
    -- The body defines in the frame of the call, which was not there before.
    refine KeepsNames.trans ?_ ihrest
    intro i f hf
    have hi := (Array.getElem?_eq_some_iff.1 hf).1
    obtain ⟨f', hf', houter, hnames, hsame⟩ := ihbody i f ((frames_newFrame _ _ hi).trans hf)
    refine ⟨f', hf', houter, hnames, fun _ => hsame ?_⟩
    intro heq
    exact absurd (Option.some.inj heq) (Nat.ne_of_gt hi)

end Store

/-! ## Computations -/

namespace Eval

variable {α β : Type} {scope : Option FrameId}

/-- The store that a computation leaves, whether it ends in a value or in an error. -/
def after (m : Eval α) (s : Store) : Store :=
  match m s with
  | .ok _ s' => s'
  | .error _ s' => s'

/-- From any store, the computation leaves a trace. -/
def Traces (scope : Option FrameId) (m : Eval α) : Prop :=
  ∀ s, Store.Trace scope s (m.after s)

theorem after_bind (m : Eval α) (f : α → Eval β) (s : Store) :
    (m >>= f).after s =
      match m s with
      | .ok a s' => (f a).after s'
      | .error _ s' => s' := by
  unfold after
  simp only [bind, EStateM.bind]
  cases m s <;> rfl

theorem after_get_bind (f : Store → Eval α) (s : Store) : (get >>= f).after s = (f s).after s :=
  rfl

theorem after_bind_of_trans {R : Store → Store → Prop} (htrans : ∀ {s t u}, R s t → R t u → R s u)
    {m : Eval α} {f : α → Eval β} (hm : ∀ s, R s (m.after s)) (hf : ∀ a s, R s ((f a).after s))
    (s : Store) : R s ((m >>= f).after s) := by
  have h := hm s
  rw [after_bind]
  unfold after at h
  cases hr : m s with
  | ok a s₁ =>
    rw [hr] at h
    exact htrans h (hf a s₁)
  | error e s₁ =>
    rw [hr] at h
    exact h

theorem traces_bind {m : Eval α} {f : α → Eval β} (hm : Traces scope m)
    (hf : ∀ a, Traces scope (f a)) : Traces scope (m >>= f) :=
  after_bind_of_trans (R := Store.Trace scope) Store.Trace.trans hm hf

theorem traces_assign (scope : Option FrameId) (x : Symbol) (v : Value) (env : FrameId) :
    Traces scope (assign x v env) := by
  intro s
  unfold assign
  rw [after_get_bind]
  split
  · rename_i i hi
    exact .single (.assign hi v)
  · exact .refl

theorem traces_lookup (scope : Option FrameId) (x : Symbol) (env : FrameId) :
    Traces scope (lookup x env) := by
  intro s
  unfold lookup
  rw [after_get_bind]
  split <;> exact .refl

theorem traces_defineNamed (x : Symbol) (v : Value) (env : FrameId) :
    Traces (some env) (do nameValue v x; define x v env) := by
  unfold nameValue
  split
  · rename_i c
    exact fun s => .single (.defineClosure rfl x c)
  · exact fun s => .single (.define rfl x v)

theorem traces_call {room : Nat} {run : Job → Eval Value} (scope : Option FrameId) (id : ClosureId)
    (args : List Value)
    (h : ∀ env body, Traces (some env) (evalSequence run env .unspecified body)) :
    Traces scope (call room run (.closure id) args) := by
  intro s
  unfold after
  rw [call_closure_apply]
  cases hc : s.closures[id]? with
  | none => exact .refl
  | some c =>
    by_cases hcount : c.params.length = args.length
    · simp only [if_pos hcount]
      exact .enter hc hcount (h s.frames.size c.body _) .refl
    · simp only [if_neg hcount]
      exact .refl

theorem compatible_traces : Compatible fun scope _ m _ => Traces scope m where
  ofPure _ _ _ := .refl
  ofThrow _ _ _ := .refl
  ofBind := traces_bind
  widen scope hm s := (hm s).widen scope
  ofGet _ _ h s := h s s
  ofLookup := traces_lookup
  ofAssign := traces_assign
  ofDefine x v _ _ := .single (.define rfl x v)
  ofDefineNamed := traces_defineNamed
  ofNewClosure _ hnodup _ := .single (.close rfl hnodup)
  ofEmit _ text _ := .single (.emit text)
  ofNextShared _ _ := .single .nextShared
  ofCall := traces_call

theorem traces_run (depth : Nat) (job : Job) : Traces job.scope (run depth job) :=
  related_run compatible_traces depth job

end Eval

/-! ## Definitions are local -/

/-- **Definitions are local.** -/
theorem evaluate_keepsNames (depth : Nat) (e : Value) (env : FrameId) (s : Store) :
    Store.KeepsNames (some env) s (Eval.after (evaluate depth e env) s) ∧
      ∀ procedure args,
        Store.KeepsNames none s (Eval.after (Eval.run depth (.call procedure args)) s) := by
  constructor
  · exact (Eval.traces_run depth (.expr e env) s).keepsNames
  · intro procedure args
    exact (Eval.traces_run depth (.call procedure args) s).keepsNames

end Scheme
