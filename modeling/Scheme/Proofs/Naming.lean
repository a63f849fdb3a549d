import Scheme.Proofs.Parts
import Scheme.Proofs.TopLevel
import Scheme.Proofs.Unmentioned

/-!
# Names of closures

A closure without a name gets one from the first definition that binds it.
-/

namespace Scheme

namespace Store

/-- The name of a closure, if there is one of that number. -/
def nameOf (s : Store) (c : ClosureId) : Option (Option Symbol) := s.closures[c]?.map Closure.name

/-- Every closure is the same as before, except that it may have got a name if it had none. -/
def KeepsClosures (s t : Store) : Prop :=
  ∀ (c : ClosureId) (k : Closure), s.closures[c]? = some k →
    ∃ name, t.closures[c]? = some { k with name } ∧ ∀ x, k.name = some x → name = some x

variable {s t u : Store} {c : ClosureId} {x : Symbol}

theorem AddsClosures.keeps (h : s.AddsClosures t) : s.KeepsClosures t :=
  fun c k hk => ⟨k.name, h c k hk, fun _ hname => hname⟩

theorem KeepsClosures.trans (h : s.KeepsClosures t) (h' : t.KeepsClosures u) :
    s.KeepsClosures u := by
  intro c k hk
  obtain ⟨name, hname, hkept⟩ := h c k hk
  obtain ⟨name', hname', hkept'⟩ := h' c _ hname
  exact ⟨name', hname', fun x hx => hkept' x (hkept x hx)⟩

theorem keepsClosures_nameClosure (s : Store) (c : ClosureId) (x : Symbol) :
    s.KeepsClosures (s.nameClosure c x) := by
  intro i k hk
  by_cases hi : c = i
  · refine ⟨k.name.or (some x), by simp [closures_nameClosure, hi, hk], fun y hy => ?_⟩
    rw [hy]
    rfl
  · exact ⟨k.name, by rw [closures_nameClosure, if_neg hi, hk], fun _ hy => hy⟩

theorem KeepsClosures.nameOf (h : s.KeepsClosures t) (hname : s.nameOf c = some (some x)) :
    t.nameOf c = some (some x) := by
  obtain ⟨k, hk, hkname⟩ := Option.map_eq_some_iff.1 hname
  obtain ⟨name, hname', hkept⟩ := h c k hk
  unfold Store.nameOf
  rw [hname', hkept x hkname]
  rfl

theorem KeepsClosures.nameOf_of_none (h : s.KeepsClosures t) (hname : s.nameOf c = some none) :
    t.nameOf c = some none ∨ ∃ x, t.nameOf c = some (some x) := by
  obtain ⟨k, hk, -⟩ := Option.map_eq_some_iff.1 hname
  obtain ⟨name, hname', -⟩ := h c k hk
  unfold Store.nameOf
  rw [hname']
  cases name with
  | none => exact .inl rfl
  | some x => exact .inr ⟨x, rfl⟩

theorem named_of_nameClosure {c' : ClosureId} {y : Symbol} (hnone : s.nameOf c = some none)
    (h : (s.nameClosure c' y).nameOf c = some (some x)) : c' = c ∧ y = x := by
  obtain ⟨k, hk, hkname⟩ := Option.map_eq_some_iff.1 hnone
  unfold nameOf at h
  rw [closures_nameClosure, hk] at h
  by_cases hc : c' = c
  · simp only [if_pos hc, Option.map_some, hkname, Option.none_or, Option.some.injEq] at h
    exact ⟨hc, h⟩
  · simp [if_neg hc, hkname] at h

end Store

namespace Eval

variable {α β : Type} {c : ClosureId} {x : Symbol} {run : Runner} {s : Store}

/-! ## What is kept -/

def Keeps (m : Eval α) : Prop := ∀ s : Store, s.KeepsClosures (m.after s)

theorem Quiet.keeps {m : Eval α} (h : Quiet m) : Keeps m := fun s => (h s).keeps

theorem Keeps.bind {m : Eval α} {f : α → Eval β} (hm : Keeps m) (hf : ∀ a, Keeps (f a)) :
    Keeps (m >>= f) :=
  after_bind_of_trans (R := Store.KeepsClosures) Store.KeepsClosures.trans hm hf

theorem keeps_nameValue (v : Value) (x : Symbol) : Keeps (nameValue v x) := by
  cases v with
  | closure c => exact fun s => s.keepsClosures_nameClosure c x
  | _ => exact (quiet_pure ()).keeps

theorem quiet_bound (v : Value) (x : Symbol) (env : FrameId) :
    Quiet (do define x v env; pure Value.unspecified) :=
  (quiet_define x v env).bind fun _ => quiet_pure _

theorem Composed.keeps {m : Runner → Eval α} (hm : Composed m) (h : ∀ job, Keeps (run job)) :
    Keeps (m run) := by
  induction hm with
  | quiet hquiet => exact hquiet.keeps
  | job job => exact h job
  | bind _ _ ihm ihf => exact ihm.bind ihf

theorem keeps_step (room : Nat) (h : ∀ job, Keeps (run job)) (job : Job) :
    Keeps (step room run job) := by
  obtain hjob | ⟨x, e, env, rfl⟩ := composed_step room job
  · exact hjob.keeps h
  · rw [step_definition]
    exact (h _).bind fun v => (keeps_nameValue v x).bind fun _ => (quiet_bound v x env).keeps

theorem keeps_run (depth : Nat) (job : Job) : Keeps (Eval.run depth job) := by
  induction depth generalizing job with
  | zero => exact (quiet_throw _).keeps
  | succ depth ih => exact keeps_step depth ih job

/-! ## What gives names -/

/-- From `s` the computation gives a closure without a name the name `x`. -/
def Names (c : ClosureId) (x : Symbol) (m : Eval α) (s : Store) : Prop :=
  s.nameOf c = some none ∧ (m.after s).nameOf c = some (some x)

theorem Quiet.not_names {m : Eval α} (h : Quiet m) : ¬ Names c x m s := by
  rintro ⟨hnone, hsome⟩
  obtain ⟨k, hk, hname⟩ := Option.map_eq_some_iff.1 hnone
  unfold Store.nameOf at hsome
  rw [h s c k hk] at hsome
  simp [hname] at hsome

theorem Names.of_bind {m : Eval α} {f : α → Eval β} (hm : Keeps m) (hf : ∀ a, Keeps (f a))
    (h : Names c x (m >>= f) s) :
    Names c x m s ∨ ∃ a t, m s = .ok a t ∧ Names c x (f a) t := by
  obtain ⟨hnone, hsome⟩ := h
  have hkept := hm s
  rw [after_bind] at hsome
  cases hr : m s with
  | error e t =>
    refine .inl ⟨hnone, ?_⟩
    unfold after
    rw [hr] at hsome ⊢
    exact hsome
  | ok a t =>
    have hafter : m.after s = t := by
      unfold after
      rw [hr]
    rw [hr] at hsome
    rw [hafter] at hkept
    obtain hnone' | ⟨y, hy⟩ := hkept.nameOf_of_none hnone
    · exact .inr ⟨a, t, rfl, hnone', hsome⟩
    · -- The name is there already, and it stays.
      have hxy := (hf a t).nameOf hy
      rw [hsome] at hxy
      obtain rfl := Option.some.inj (Option.some.inj hxy)
      exact .inl ⟨hnone, hafter ▸ hy⟩

theorem Composed.names {m : Runner → Eval α} (hm : Composed m) (h : ∀ job, Keeps (run job))
    (hnames : Names c x (m run) s) :
    ∃ job t, Does m run s job t ∧ Names c x (run job) t := by
  induction hm generalizing s with
  | quiet hquiet => exact absurd hnames hquiet.not_names
  | job job => exact ⟨job, s, does_job job run s, hnames⟩
  | bind hm hf ihm ihf =>
    obtain hfirst | ⟨a, t, hok, hsecond⟩ := hnames.of_bind (hm.keeps h) fun a => (hf a).keeps h
    · obtain ⟨job, t, hdoes, hjob⟩ := ihm hfirst
      exact ⟨job, t, hdoes.bind_left, hjob⟩
    · obtain ⟨job, t', hdoes, hjob⟩ := ihf a hsecond
      exact ⟨job, t', hdoes.bind_right hm hok, hjob⟩

theorem names_step {room : Nat} (h : ∀ job, Keeps (run job)) {job : Job}
    (hnames : Names c x (step room run job) s) :
    (∃ part t, Does (step room · job) run s part t ∧ Names c x (run part) t) ∨
      ∃ e env t, job = .expr (.definition x e) env ∧ run (.expr e env) s = .ok (.closure c) t ∧
        t.nameOf c = some none := by
  obtain hjob | ⟨y, e, env, rfl⟩ := composed_step room job
  · exact .inl (hjob.names h hnames)
  · have hrest (v : Value) : Keeps (do nameValue v y; define y v env; pure Value.unspecified) :=
      (keeps_nameValue v y).bind fun _ => (quiet_bound v y env).keeps
    rw [step_definition] at hnames
    -- The name is given by the expression, which is a part, or by what is done with its value.
    obtain hpart | ⟨v, t, hok, hnamed⟩ := hnames.of_bind (h _) hrest
    · exact .inl ⟨.expr e env, s, does_definition room run y e env s, hpart⟩
    · right
      obtain hname | ⟨_, u, _, hbound⟩ :=
        hnamed.of_bind (keeps_nameValue v y) fun _ => (quiet_bound v y env).keeps
      · cases v with
        | closure c' =>
          obtain ⟨hnone, hsome⟩ := hname
          obtain ⟨rfl, rfl⟩ := Store.named_of_nameClosure hnone hsome
          exact ⟨e, env, t, rfl, hok, hnone⟩
        | _ => exact absurd hname (quiet_pure ()).not_names
      · exact absurd hbound (quiet_bound v y env).not_names

/-- In doing the job, a definition of `x` is evaluated whose expression has the closure as its value
while that has no name. The definition binds `x` to the closure and gives it the name. -/
def NamedDuring (depth : Nat) (job : Job) (s : Store) (c : ClosureId) (x : Symbol) : Prop :=
  ∃ (inner : Nat) (e : Value) (env : FrameId) (t u : Store),
    During depth job s (inner + 1) (.expr (.definition x e) env) t ∧
    evaluate inner e env t = .ok (.closure c) u ∧ u.nameOf c = some none ∧
    evaluate (inner + 1) (.definition x e) env t =
      .ok .unspecified ((u.nameClosure c x).define env x (.closure c))

theorem names_run {depth : Nat} {job : Job} (h : Names c x (Eval.run depth job) s) :
    NamedDuring depth job s c x := by
  induction depth generalizing job s with
  | zero => exact absurd h (quiet_throw _).not_names
  | succ depth ih =>
    obtain ⟨part, t, hdoes, hpart⟩ | ⟨e, env, t, rfl, hok, hnone⟩ :=
      names_step (keeps_run depth) h
    · obtain ⟨inner, e, env, t', u, hduring, hrest⟩ := ih hpart
      exact ⟨inner, e, env, t', u, .part hdoes hduring, hrest⟩
    · refine ⟨depth, e, env, s, t, .itself _ _ _, hok, hnone, ?_⟩
      have hstep := step_definition depth (Eval.run depth) x e env
      unfold evaluate
      rw [Eval.run, hstep]
      simp only [Bind.bind, EStateM.bind, hok]
      rfl

end Eval

/-! ## Sessions -/

namespace Session

theorem keepsClosures_eval (s : Session) (source : String) :
    s.store.KeepsClosures (s.eval source).2.store := by
  unfold eval
  split
  · exact Store.AddsClosures.keeps fun _ _ hk => hk
  · rename_i es _
    rw [evalExprs, store_perform]
    have hsequence := Eval.composed_evalSequence globalFrame .unspecified es
    exact hsequence.keeps (Eval.keeps_run s.depth) s.store

theorem keepsClosures_evalEach {s : Session} {sources : List String}
    {r : Except Error Value × Session} (h : r ∈ s.evalEach sources) :
    s.store.KeepsClosures r.2.store := by
  induction sources generalizing s with
  | nil => cases h
  | cons source rest ih =>
    obtain rfl | h := List.mem_cons.1 h
    · exact s.keepsClosures_eval source
    · exact (s.keepsClosures_eval source).trans (ih h)

end Session

open Eval

/-- **A closure changes only by getting its one name.** -/
theorem keepsClosures {s : Store} {c : ClosureId} {k : Closure} (h : s.closures[c]? = some k) :
    (∀ depth job, ∃ name, ((run depth job).after s).closures[c]? = some { k with name } ∧
      (∀ x, k.name = some x → name = some x) ∧
      (k.name = none → ∀ x, name = some x → NamedDuring depth job s c x)) ∧
    ∀ limit sources, ∀ r ∈ (Session.mk s limit).evalEach sources,
      ∃ name, r.2.store.closures[c]? = some { k with name } ∧
        ∀ x, k.name = some x → name = some x := by
  constructor
  · intro depth job
    obtain ⟨name, hname, hkept⟩ := keeps_run depth job s c k h
    refine ⟨name, hname, hkept, fun hnone x hx => names_run ⟨?_, ?_⟩⟩
    · simp [Store.nameOf, h, hnone]
    · simp [Store.nameOf, hname, hx]
  · intro limit sources r hr
    exact Session.keepsClosures_evalEach hr c k h

/-- A store in which `held` is a closure that has no name. -/
def unnamed : Store where
  frames := #[{ bindings := [(⟨"held", by decide⟩, .closure 0)] }]
  closures := #[{ params := [⟨"it", by decide⟩], body := [.sym ⟨"it", by decide⟩], env := 0 }]

theorem keepsClosures_unnamed :
    let f : Symbol := ⟨"f", by decide⟩
    let k : Closure := { params := [⟨"it", by decide⟩], body := [.sym ⟨"it", by decide⟩], env := 0 }
    let first : Job := .expr (.definition f (.sym ⟨"held", by decide⟩)) 0
    let second : Job := .expr (.definition ⟨"g", by decide⟩ (.sym ⟨"held", by decide⟩)) 0
    let named := (run 2 first).after unnamed
    unnamed.closures[0]? = some k ∧ named.closures[0]? = some { k with name := f } ∧
      NamedDuring 2 first unnamed 0 f ∧
      ((run 2 second).after named).closures[0]? = some { k with name := f } := by
  intro f k first second named
  have h : unnamed.closures[0]? = some k := rfl
  obtain ⟨name, hname, -, hduring⟩ := (keepsClosures h).1 2 first
  have hf : named.nameOf 0 = some (some f) := by decide +kernel
  obtain rfl : name = some f := by
    unfold Store.nameOf at hf
    rw [hname] at hf
    exact Option.some.inj hf
  obtain ⟨name', hname', hkept, -⟩ := (keepsClosures hname).1 2 second
  obtain rfl := hkept f rfl
  exact ⟨h, hname, hduring rfl f rfl, hname'⟩

end Scheme
