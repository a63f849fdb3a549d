import Scheme.Proofs.Compatible
import Scheme.Shell

/-!
# What a run displays

Evaluation adds to the output and does not look at it.
-/

namespace Scheme

namespace Store

/-- The store with text that was displayed before. -/
def prepend (text : String) (s : Store) : Store := { s with output := text ++ s.output }

/-- The store with its output taken. -/
def cleared (s : Store) : Store := { s with output := "" }

theorem prepend_empty (s : Store) : s.prepend "" = s := by simp [prepend]

theorem cleared_prepend (s : Store) : s.cleared.prepend s.output = s := by
  simp [prepend, cleared]

theorem prepend_prepend (text text' : String) (s : Store) :
    (s.prepend text).prepend text' = s.prepend (text' ++ text) := by
  simp [prepend, String.append_assoc]

theorem closures_prepend (text : String) (s : Store) :
    (s.prepend text).closures = s.closures := rfl

/-- What is found depends on the frames alone. -/
theorem search_congr {s t : Store} (h : s.frames = t.frames) (x : Symbol) (env : FrameId) :
    s.search x env = t.search x env := by
  fun_induction search s x env with
  | case1 env hf => rw [search, ← h, hf]
  | case2 env f hf v hv =>
    rw [search, ← h, hf]
    simp only [hv]
  | case3 env f hf hv houter =>
    rw [search, ← h, hf]
    simp only [hv, houter]
  | case4 env f hf hv outer houter hlt ih =>
    rw [ih, search.eq_def t x env, ← h, hf]
    simp only [hv, houter, if_pos hlt]
  | case5 env f hf hv outer houter hlt =>
    rw [search, ← h, hf]
    simp only [hv, houter, if_neg hlt]

theorem search_prepend (text : String) (s : Store) (x : Symbol) (env : FrameId) :
    (s.prepend text).search x env = s.search x env :=
  @search_congr (s.prepend text) s rfl x env

end Store

namespace Eval

variable {α β : Type}

/-- An outcome that comes after text that was displayed before. -/
def prepend (text : String) : EStateM.Result Error Store α → EStateM.Result Error Store α
  | .ok a s => .ok a (s.prepend text)
  | .error e s => .error e (s.prepend text)

/-- The computation does not look at the output. -/
def Oblivious (m : Eval α) : Prop :=
  ∀ text s, m (s.prepend text) = prepend text (m s)

theorem oblivious_bind {m : Eval α} {f : α → Eval β} (hm : Oblivious m)
    (hf : ∀ a, Oblivious (f a)) : Oblivious (m >>= f) := by
  intro text s
  simp only [bind, EStateM.bind]
  rw [hm text s]
  cases m s with
  | ok a s₁ => exact hf a text s₁
  | error e s₁ => rfl

theorem oblivious_get_bind {f : Store → Eval α} (hf : Store.Described f)
    (h : ∀ s, Oblivious (f s)) : Oblivious (get >>= f) := by
  intro text s
  have hread : f (s.prepend text) = f s := hf (s.prepend text) s rfl
  rw [get_bind_apply, get_bind_apply, hread]
  exact h s text s

theorem oblivious_lookup (x : Symbol) (env : FrameId) : Oblivious (lookup x env) := by
  intro text s
  have h : (s.prepend text).lookup x env = s.lookup x env := by
    rw [Store.lookup, Store.search_prepend]
    rfl
  unfold lookup
  rw [get_bind_apply, get_bind_apply, h]
  cases s.lookup x env <;> rfl

theorem oblivious_assign (x : Symbol) (v : Value) (env : FrameId) :
    Oblivious (assign x v env) := by
  intro text s
  have h : (s.prepend text).find x env = s.find x env := by
    rw [Store.find, Store.search_prepend]
    rfl
  unfold assign
  rw [get_bind_apply, get_bind_apply, h]
  cases s.find x env <;> rfl

theorem oblivious_defineNamed (x : Symbol) (v : Value) (env : FrameId) :
    Oblivious (do nameValue v x; define x v env) := by
  intro text s
  cases v <;> rfl

theorem oblivious_emit (text : String) : Oblivious (emit text) := by
  intro text' s
  have h : (s.prepend text').emit text = (s.emit text).prepend text' := by
    simp [Store.prepend, Store.emit, String.append_assoc]
  exact congrArg (EStateM.Result.ok ()) h

theorem oblivious_call {room : Nat} {run : Job → Eval Value} (c : ClosureId) (args : List Value)
    (h : ∀ env body, Oblivious (evalSequence run env .unspecified body)) :
    Oblivious (call room run (.closure c) args) := by
  intro text s
  rw [call_closure_apply, call_closure_apply, Store.closures_prepend]
  cases s.closures[c]? with
  | none => rfl
  | some k =>
    by_cases hcount : k.params.length = args.length
    · simp only [if_pos hcount]
      exact h s.frames.size k.body text (s.newFrame _).2
    · simp only [if_neg hcount]
      rfl

theorem compatible_oblivious : Compatible fun _ _ m _ => Oblivious m where
  ofPure _ _ _ _ := rfl
  ofThrow _ _ _ _ := rfl
  ofBind := oblivious_bind
  widen _ hm := hm
  ofGet hf _ h := oblivious_get_bind hf h
  ofLookup _ := oblivious_lookup
  ofAssign _ := oblivious_assign
  ofDefine _ _ _ _ _ := rfl
  ofDefineNamed := oblivious_defineNamed
  ofNewClosure _ _ _ _ := rfl
  ofEmit _ := oblivious_emit
  ofNextShared _ _ _ := rfl
  ofCall _ := oblivious_call

theorem oblivious_run (depth : Nat) (job : Job) : Oblivious (run depth job) :=
  related_run compatible_oblivious depth job

/-! ## Runs of top-level expressions -/

theorem bind_eq_ok {m : Eval α} {f : α → Eval β} {s t : Store} {b : β}
    (h : (m >>= f) s = .ok b t) : ∃ a s₁, m s = .ok a s₁ ∧ f a s₁ = .ok b t := by
  simp only [bind, EStateM.bind] at h
  cases hm : m s with
  | ok a s₁ =>
    rw [hm] at h
    exact ⟨a, s₁, rfl, h⟩
  | error e s₁ =>
    rw [hm] at h
    cases h

theorem prepend_eq_ok {text : String} {r : EStateM.Result Error Store α} {a : α} {t : Store}
    (h : prepend text r = .ok a t) : ∃ u, r = .ok a u ∧ t = u.prepend text := by
  cases r with
  | error e u => cases h
  | ok a' u =>
    cases h
    exact ⟨u, rfl, rfl⟩

/-- What an expression adds to the output of the shell: what it displays itself, and behind that
the line that its value is printed on, if there is one. -/
structure Entry where
  value : Value
  displayed : String
  printed : String

/-- There is room to print the value. -/
def Entry.Fits (depth : Nat) (e : Entry) : Prop :=
  e.value.isUnspecified ∨ e.value.nesting ≤ depth

/-- All that expressions display themselves. -/
def displayed (entries : List Entry) : String := String.join (entries.map Entry.displayed)

/-- All that the shell puts out for expressions. -/
def transcript (entries : List Entry) : String :=
  String.join (entries.map fun e => e.displayed ++ e.printed)

def printedLine (s : Store) (v : Value) : String :=
  if v.isUnspecified then "" else s.write v ++ "\n"

theorem printedLine_prepend (text : String) (s : Store) (v : Value) :
    printedLine (s.prepend text) v = printedLine s v := rfl

/-- From the first store, the expressions are evaluated in turn, each with a value, and leave the
last store. Each starts with nothing displayed. -/
inductive Runs (depth : Nat) (env : FrameId) :
    Store → List Value → List Entry → Store → Prop where
  | nil {s : Store} : Runs depth env s [] [] s
  | cons {s s₁ t : Store} {e v : Value} {es : List Value} {entries : List Entry}
      (first : evaluate depth e env s = .ok v s₁)
      (rest : Runs depth env s₁.cleared es entries t) :
      Runs depth env s (e :: es) (⟨v, s₁.output, printedLine s₁ v⟩ :: entries) t

variable {depth : Nat} {env : FrameId} {s t : Store} {es : List Value} {entries : List Entry}

theorem Runs.output_eq (h : Runs depth env s es entries t) (hs : s.output = "") :
    t.output = "" := by
  induction h with
  | nil => exact hs
  | cons first rest ih => exact ih rfl

theorem Runs.of_append {es' : List Value} (h : Runs depth env s (es ++ es') entries t) :
    ∃ before after u, entries = before ++ after ∧ Runs depth env s es before u ∧
      Runs depth env u es' after t := by
  induction es generalizing s entries with
  | nil => exact ⟨[], entries, s, rfl, .nil, h⟩
  | cons e es ih =>
    rcases h with _ | ⟨first, rest⟩
    obtain ⟨before, after, u, rfl, hbefore, hafter⟩ := ih rest
    exact ⟨_ :: before, after, u, rfl, .cons first hbefore, hafter⟩

theorem evaluate_prepend (depth : Nat) (e : Value) (env : FrameId) (text : String) (s : Store) :
    evaluate depth e env (s.prepend text) = prepend text (evaluate depth e env s) :=
  oblivious_run depth (.expr e env) text s

theorem runs_of_evalSequence {last v : Value} {text : String} {s' : Store}
    (h : evalSequence (run depth) env last es (s.prepend text) = .ok v s') :
    ∃ entries t, Runs depth env s es entries t ∧ s' = t.prepend (text ++ displayed entries) := by
  induction es generalizing s text last with
  | nil =>
    obtain ⟨rfl, rfl⟩ := h
    exact ⟨[], s, .nil, by simp [displayed]⟩
  | cons e es ih =>
    unfold evalSequence at h
    obtain ⟨w, s₂, hfirst, hrest⟩ := bind_eq_ok h
    obtain ⟨s₁, hs₁, rfl⟩ := prepend_eq_ok ((evaluate_prepend depth e env text s).symm.trans hfirst)
    rw [← Store.cleared_prepend s₁, Store.prepend_prepend] at hrest
    obtain ⟨entries, t, hruns, rfl⟩ := ih hrest
    refine ⟨_ :: entries, t, .cons hs₁ hruns, ?_⟩
    simp [displayed, String.append_assoc]

theorem printEach_cons {e v : Value} {s₁ : Store} (h : evaluate depth e env s = .ok v s₁)
    (hroom : v.isUnspecified ∨ v.nesting ≤ depth) :
    printEach depth env (e :: es) s = printEach depth env es (s₁.emit (printedLine s₁ v)) := by
  have hempty : s₁.emit "" = s₁ := by simp [Store.emit]
  unfold printedLine
  simp only [printEach, bind, EStateM.bind, h]
  cases hv : v.isUnspecified with
  | true => simp [hempty]
  | false =>
    have hvisit : v.visit depth = .ok () := by
      rw [Value.visit_eq, if_pos (hroom.resolve_left (by simp [hv]))]
    simp only [hvisit]
    rfl

theorem Runs.printEach_eq (h : Runs depth env s es entries t)
    (hroom : ∀ e ∈ entries, e.Fits depth) (text : String) :
    printEach depth env es (s.prepend text) = .ok () (t.prepend (text ++ transcript entries)) := by
  induction h generalizing text with
  | nil => simp [printEach, transcript, pure, EStateM.pure]
  | @cons s s₁ t e v es entries first rest ih =>
    have he : evaluate depth e env (s.prepend text) = .ok v (s₁.prepend text) := by
      rw [evaluate_prepend, first]
      rfl
    have hemit : (s₁.prepend text).emit (printedLine s₁ v) =
        s₁.cleared.prepend (text ++ s₁.output ++ printedLine s₁ v) := by
      simp [Store.emit, Store.prepend, Store.cleared]
    obtain ⟨hfirst, hrest⟩ := List.forall_mem_cons.1 hroom
    rw [printEach_cons he hfirst, printedLine_prepend, hemit, ih hrest]
    simp [transcript, String.append_assoc]

theorem Runs.evalEach_eq (h : Runs depth env s es entries t) (text : String) :
    ∃ t', evalEach (run depth) env es (s.prepend text) = .ok (entries.map Entry.value) t' := by
  induction h generalizing text with
  | nil => exact ⟨_, rfl⟩
  | @cons s s₁ t e v es entries first rest ih =>
    obtain ⟨t', ht'⟩ := ih (text ++ s₁.output)
    have he : run depth (.expr e env) (s.prepend text) =
        .ok v (s₁.cleared.prepend (text ++ s₁.output)) := by
      rw [← Store.prepend_prepend, Store.cleared_prepend]
      exact (evaluate_prepend depth e env text s).trans (congrArg (prepend text) first)
    refine ⟨t', ?_⟩
    unfold evalEach
    simp only [bind, EStateM.bind, he, ht']
    rfl

end Eval

end Scheme
