import Scheme.Proofs.Compatible
import Scheme.Proofs.Reading
import Scheme.Session

/-!
# Raising the limit

The limit decides only whether there is an answer, never which.
-/

namespace Scheme

/-! ## Evaluating -/

namespace Eval

variable {α β : Type}

/-- The second computation does what the first one does, unless that exceeds its depth. -/
def Extends (m m' : Eval α) : Prop :=
  ∀ s, (∃ t, m s = .error .depthExceeded t) ∨ m' s = m s

/-- The same from one store. -/
def ExtendsAt (m m' : Eval α) (s : Store) : Prop :=
  (∃ t, m s = .error .depthExceeded t) ∨ m' s = m s

theorem extends_refl (m : Eval α) : Extends m m := fun _ => Or.inr rfl

theorem extendsAt_bind {m m' : Eval α} {f f' : α → Eval β} {s : Store} (hm : ExtendsAt m m' s)
    (hf : ∀ a t, ExtendsAt (f a) (f' a) t) : ExtendsAt (m >>= f) (m' >>= f') s := by
  unfold ExtendsAt at hm ⊢
  simp only [bind, EStateM.bind]
  rcases hm with ⟨t, hexceeded⟩ | hsame
  · rw [hexceeded]
    exact Or.inl ⟨t, rfl⟩
  · rw [hsame]
    cases m s with
    | ok a t => exact hf a t
    | error e t => exact Or.inr rfl

theorem extends_bind {m m' : Eval α} {f f' : α → Eval β} (hm : Extends m m')
    (hf : ∀ a, Extends (f a) (f' a)) : Extends (m >>= f) (m' >>= f') :=
  fun s => extendsAt_bind (hm s) hf

theorem extends_call {room room' : Nat} {run run' : Job → Eval Value} (c : ClosureId)
    (args : List Value) (h : ∀ env body, Extends (evalSequence run env .unspecified body)
      (evalSequence run' env .unspecified body)) :
    Extends (call room run (.closure c) args) (call room' run' (.closure c) args) := by
  intro s
  rw [call_closure_apply, call_closure_apply]
  cases s.closures[c]? with
  | none => exact Or.inr rfl
  | some k =>
    by_cases hcount : k.params.length = args.length
    · simp only [if_pos hcount]
      exact h s.frames.size k.body (s.newFrame _).2
    · simp only [if_neg hcount, or_true]

theorem compatible_extends : Compatible fun _ _ m m' => Extends m m' where
  ofPure _ a := extends_refl (pure a)
  ofThrow _ e := extends_refl (throw e)
  ofBind := extends_bind
  widen _ h := h
  ofGet _ _ h s := h s s
  ofLookup _ x env := extends_refl (lookup x env)
  ofAssign _ x v env := extends_refl (assign x v env)
  ofDefine x v env := extends_refl (define x v env)
  ofDefineNamed x v env := extends_refl (do nameValue v x; define x v env)
  ofNewClosure c _ := extends_refl (newClosure c)
  ofEmit _ text := extends_refl (emit text)
  ofNextShared _ := extends_refl nextShared
  ofCall _ := extends_call

theorem roomy_extends {room room' : Nat} (h : room ≤ room') :
    Roomy (fun _ _ m m' => Extends m m') room room' := by
  intro _ α f hf s
  rcases hf room room' h with hexceeded | hsame
  · rw [hexceeded]
    exact Or.inl ⟨s, rfl⟩
  · rw [hsame]
    exact Or.inr rfl

/-- With more depth every job inside another one has more, too. -/
theorem run_extends (depth more : Nat) (job : Job) :
    Extends (run depth job) (run (depth + more) job) := by
  induction depth generalizing job with
  | zero => exact fun s => Or.inl ⟨s, rfl⟩
  | succ depth ih =>
    rw [Nat.succ_add]
    exact related_step compatible_extends (roomy_extends (Nat.le_add_right depth more)) ih job

theorem run_extends_of_le {depth depth' : Nat} (h : depth ≤ depth') (job : Job) :
    Extends (run depth job) (run depth' job) := by
  obtain ⟨more, rfl⟩ := Nat.exists_eq_add_of_le h
  exact run_extends depth more job

/-! ## Depth aside -/

/-- Depth aside, the two do the same from this store: what either of them ends in within a depth,
unless it exceeds that, the other one ends in with one level more. -/
def Alike (m m' : Nat → Eval α) (s : Store) : Prop :=
  ∀ depth, ExtendsAt (m depth) (m' (depth + 1)) s ∧ ExtendsAt (m' depth) (m (depth + 1)) s

theorem alike_of_succ {m m' : Nat → Eval α} {s : Store} (h₀ : m 0 = throw .depthExceeded)
    (h₀' : m' 0 = throw .depthExceeded)
    (h : Alike (fun depth => m (depth + 1)) (fun depth => m' (depth + 1)) s) : Alike m m' s := by
  intro depth
  cases depth with
  | zero =>
    rw [h₀, h₀']
    exact ⟨.inl ⟨s, rfl⟩, .inl ⟨s, rfl⟩⟩
  | succ depth => exact h depth

theorem alike_run (i j : Nat) (h : i ≤ j + 1) (h' : j ≤ i + 1) (job : Job) (s : Store) :
    Alike (fun depth => run (depth + i) job) (fun depth => run (depth + j) job) s :=
  fun _ => ⟨run_extends_of_le (by omega) job s, run_extends_of_le (by omega) job s⟩

theorem alike_evaluate (i j : Nat) (h : i ≤ j + 1) (h' : j ≤ i + 1) (e : Value) (env : FrameId)
    (s : Store) :
    Alike (fun depth => evaluate (depth + i) e env) (fun depth => evaluate (depth + j) e env) s :=
  alike_run i j h h' (.expr e env) s

theorem alike_const (m : Eval α) (s : Store) : Alike (fun _ => m) (fun _ => m) s :=
  fun _ => ⟨.inr rfl, .inr rfl⟩

theorem alike_congr {m m' n n' : Nat → Eval α} {s : Store} (h : ∀ depth, m depth s = n depth s)
    (h' : ∀ depth, m' depth s = n' depth s) (hn : Alike n n' s) : Alike m m' s := by
  unfold Alike ExtendsAt at hn ⊢
  simpa only [h, h'] using hn

theorem alike_bind {m m' : Nat → Eval α} {f f' : Nat → α → Eval β} {s : Store}
    (hm : Alike m m' s) (hf : ∀ a t, Alike (f · a) (f' · a) t) :
    Alike (fun depth => m depth >>= f depth) (fun depth => m' depth >>= f' depth) s :=
  fun depth => ⟨extendsAt_bind (hm depth).1 fun a t => (hf a t depth).1,
    extendsAt_bind (hm depth).2 fun a t => (hf a t depth).2⟩

end Eval

/-! ## Reading -/

namespace Reader

def Step.raise (more : Nat) : Step → Step
  | .more room stack => .more (room + more) stack
  | step => step

def State.raise (more : Nat) (s : State) : State := { s with room := s.room + more }

theorem deliver_raise (more room : Nat) (v : Value) (stack : List Pending) :
    deliver (room + more) v stack = (deliver room v stack).raise more := by
  induction stack generalizing room v with
  | nil => rfl
  | cons p stack ih =>
    cases p with
    | quoted =>
      have hroom : room + more + 1 = room + 1 + more := by omega
      rw [deliver, deliver, hroom]
      exact ih (room + 1) _
    | list items => rfl

theorem descend_raise (more room : Nat) (stack : List Pending) (p : Pending) :
    descend room stack p = .fault .depthExceeded ∨
      descend (room + more) stack p = (descend room stack p).raise more := by
  cases room with
  | zero => exact Or.inl rfl
  | succ room =>
    rw [Nat.succ_add]
    exact Or.inr rfl

theorem take_raise (more room : Nat) (stack : List Pending) (t : Token) :
    take room stack t = .fault .depthExceeded ∨
      take (room + more) stack t = (take room stack t).raise more := by
  obtain ⟨kind, text⟩ := t
  unfold take
  cases kind with
  | atom =>
    cases Literal.ofWord text with
    | ok v => exact Or.inr (deliver_raise more room v stack)
    | error e => exact Or.inr rfl
  | string => exact Or.inr (deliver_raise more room _ stack)
  | quote => exact descend_raise more room stack .quoted
  | openParen => exact descend_raise more room stack (.list [])
  | closeParen =>
    cases stack with
    | nil => exact Or.inr rfl
    | cons p stack =>
      cases p with
      | quoted => exact Or.inr rfl
      | list items =>
        have hroom : room + more + 1 = room + 1 + more := by omega
        simp only [hroom]
        exact Or.inr (deliver_raise more (room + 1) _ stack)
  | other label => exact Or.inr rfl

theorem State.step_raise (limit more : Nat) (s : State) (t : Token) :
    s.step limit t = .error .depthExceeded ∨
      (s.raise more).step (limit + more) t = (s.step limit t).map (State.raise more) := by
  unfold State.step
  rcases take_raise more s.room s.stack t with hexceeded | hraise
  · rw [hexceeded]
    exact Or.inl rfl
  · right
    have htake : take (s.raise more).room (s.raise more).stack t =
        (take s.room s.stack t).raise more := hraise
    rw [htake]
    cases take s.room s.stack t <;> rfl

theorem State.steps_raise (limit more : Nat) (s : State) (ts : List Token) :
    s.steps limit ts = .error .depthExceeded ∨
      (s.raise more).steps (limit + more) ts = (s.steps limit ts).map (State.raise more) := by
  induction ts generalizing s with
  | nil => exact Or.inr rfl
  | cons t ts ih =>
    rw [State.steps_cons, State.steps_cons]
    rcases State.step_raise limit more s t with hexceeded | hraise
    · rw [hexceeded]
      exact Or.inl rfl
    · rw [hraise]
      cases s.step limit t with
      | error e => exact Or.inr rfl
      | ok s₁ => exact ih s₁

end Reader

open Reader

theorem parse_of_limit_le {limit limit' : Nat} (h : limit ≤ limit') (source : List Char) :
    parse limit source = .error .depthExceeded ∨ parse limit' source = parse limit source := by
  obtain ⟨more, rfl⟩ := Nat.exists_eq_add_of_le h
  rw [parse_eq, parse_eq, Lexed.parsed, Lexed.parsed]
  rcases State.steps_raise limit more { room := limit } (lex source).tokens with
    hexceeded | hraise
  · rw [hexceeded]
    exact Or.inl rfl
  · right
    have hstart : State.raise more { room := limit } = { room := limit + more } := rfl
    rw [← hstart, hraise]
    cases State.steps limit { room := limit } (lex source).tokens <;> rfl

/-! ## Sessions -/

namespace Session

def withLimit (s : Session) (limit : Nat) : Session := { s with limit }

/-- An answer that a session gives under another limit as well. -/
def sameAnswer (limit : Nat) (r : Except Error Value × Session) : Except Error Value × Session :=
  (r.1, r.2.withLimit limit)

variable (s : Session) {limit : Nat} (h : s.limit ≤ limit)
include h

theorem depth_le_withLimit : s.depth ≤ (s.withLimit limit).depth :=
  Nat.div_le_div_right h

theorem evalExprs_withLimit (es : List Value) (env : FrameId) :
    (s.evalExprs es env).1 = .error .depthExceeded ∨
      (s.withLimit limit).evalExprs es env = sameAnswer limit (s.evalExprs es env) := by
  have hsequence := Eval.related_evalSequence Eval.compatible_extends
    (Eval.run_extends_of_le (depth_le_withLimit s h)) env .unspecified es s.store
  unfold evalExprs perform
  simp only [EStateM.run]
  rcases hsequence with ⟨t, hexceeded⟩ | hsame
  · rw [hexceeded]
    exact Or.inl rfl
  · right
    have hstore : (s.withLimit limit).store = s.store := rfl
    rw [hstore, hsame]
    cases Eval.evalSequence (Eval.run s.depth) env .unspecified es s.store <;> rfl

theorem eval_withLimit (source : String) :
    (s.eval source).1 = .error .depthExceeded ∨
      (s.withLimit limit).eval source = sameAnswer limit (s.eval source) := by
  have hlimit : (s.withLimit limit).limit = limit := rfl
  unfold eval
  rw [hlimit]
  rcases parse_of_limit_le h source.toList with hexceeded | hsame
  · rw [hexceeded]
    exact Or.inl rfl
  · rw [hsame]
    cases parse s.limit source.toList with
    | error e => exact Or.inr rfl
    | ok es => exact s.evalExprs_withLimit h es globalFrame

/-- **Raising the limit is conservative.** -/
theorem raise_limit :
    (∀ e env, (∃ t, evaluate s.depth e env s.store = .error .depthExceeded t) ∨
      evaluate (s.withLimit limit).depth e env s.store = evaluate s.depth e env s.store) ∧
    (∀ procedure args,
      (∃ t, Eval.run s.depth (.call procedure args) s.store = .error .depthExceeded t) ∨
        Eval.run (s.withLimit limit).depth (.call procedure args) s.store =
          Eval.run s.depth (.call procedure args) s.store) ∧
    (∀ es env, (s.evalExprs es env).1 = .error .depthExceeded ∨
      (s.withLimit limit).evalExprs es env = sameAnswer limit (s.evalExprs es env)) ∧
    ∀ source, (s.eval source).1 = .error .depthExceeded ∨
      (s.withLimit limit).eval source = sameAnswer limit (s.eval source) := by
  have hrun := Eval.run_extends_of_le (depth_le_withLimit s h)
  refine ⟨fun e env => ?_, fun procedure args => ?_, s.evalExprs_withLimit h, s.eval_withLimit h⟩
  · exact hrun (.expr e env) s.store
  · exact hrun (.call procedure args) s.store

omit h in
theorem raise_limit_countDown :
    let source := "(define (down n) (display n) (if (= n 0) n (down (- n 1)))) (down 3)"
    (fresh 40).limit ≤ 100 ∧ ((fresh 40).eval source).1.isOk = true ∧
      ((fresh 40).withLimit 100).eval source = sameAnswer 100 ((fresh 40).eval source) := by
  intro source
  have hle : (fresh 40).limit ≤ 100 := by decide
  have hok : ((fresh 40).eval source).1.isOk = true := by decide +kernel
  have hraise := (raise_limit (fresh 40) hle).2.2.2 source
  refine ⟨hle, hok, hraise.resolve_left ?_⟩
  intro hexceeded
  rw [hexceeded] at hok
  cases hok

end Session

end Scheme
