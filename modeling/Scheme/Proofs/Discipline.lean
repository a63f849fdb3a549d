import Scheme.Proofs.Code
import Scheme.Proofs.Compatible
import Scheme.Store.Lemmas

/-!
# What evaluation keeps

If each operation on stores keeps a discipline, so does evaluation as a whole.
-/

namespace Scheme

/-- The bodies of closures are code, and names are allowed in them and as parameters. -/
def Store.HoldsCode (Allowed : Symbol → Prop) (s : Store) : Prop :=
  ∀ (c : ClosureId) (k : Closure), s.closures[c]? = some k →
    (∀ e ∈ k.body, e.Code Allowed) ∧ ∀ x ∈ k.params, Allowed x

structure Discipline where
  /-- the names that programs may use -/
  Allowed : Symbol → Prop := AnyName
  /-- what holds of every store -/
  Inv : Store → Prop
  /-- how a store may go on -/
  Next : Store → Store → Prop
  /-- the frames that evaluation may be in -/
  Open : Store → FrameId → Prop
  /-- what may stand in values -/
  Item : Store → Value → Prop
  view : Store → Store := id

namespace Discipline

variable (D : Discipline)

def Good (s : Store) : Prop := s.HoldsCode D.Allowed ∧ D.Inv s

def Holds (s : Store) (v : Value) : Prop := ∀ u : Value, u.Occurs v → D.Item s u

def Leads (s t : Store) : Prop := D.Inv t ∧ D.Next s t

/-- Every operation on stores keeps the discipline. -/
structure Lawful : Prop where
  next_refl (s : Store) : D.Next s s
  next_trans {s t u : Store} : D.Next s t → D.Next t u → D.Next s u
  open_next {s t : Store} {env : FrameId} : D.Next s t → D.Open s env → D.Open t env
  item_next {s t : Store} {u : Value} : D.Next s t → D.Item s u → D.Item t u
  item_inert {s : Store} {u : Value} : u.isInert = true → D.Item s u
  lookup {s : Store} {env : FrameId} {x : Symbol} {v : Value} :
    D.Inv s → D.Open s env → s.lookup x env = some v → D.Holds s v
  find {s : Store} {env i : FrameId} {x : Symbol} :
    D.Inv s → D.Open s env → s.find x env = some i → D.Open s i
  define {s : Store} {env : FrameId} (x : Symbol) {v : Value} :
    D.Inv s → D.Open s env → D.Holds s v → D.Leads s (s.define env x v)
  nameClosure {s : Store} {c : ClosureId} (x : Symbol) :
    D.Inv s → D.Item s (.closure c) → D.Leads s (s.nameClosure c x)
  newClosure {s : Store} {k : Closure} :
    D.Inv s → D.Open s k.env → k.params.Nodup →
      D.Leads s (s.newClosure k).2 ∧ D.Item (s.newClosure k).2 (.closure s.closures.size)
  newFrame {s : Store} {c : ClosureId} {k : Closure} {args : List Value} :
    D.Inv s → D.Item s (.closure c) → s.closures[c]? = some k → k.params.length = args.length →
      (∀ v ∈ args, D.Holds s v) →
        D.Leads s (s.newFrame (.ofArgs k.env k.params args)).2 ∧
          D.Open (s.newFrame (.ofArgs k.env k.params args)).2 s.frames.size
  emit {s : Store} (text : String) : D.Inv s → D.Leads s (s.emit text)
  nextShared {s : Store} : D.Inv s → D.Leads s s.nextShared.2
  view_closures (s : Store) : (D.view s).closures = s.closures := by intros; rfl
  view_lookup {x : Symbol} (s : Store) (env : FrameId) :
    D.Allowed x → (D.view s).lookup x env = s.lookup x env := by intros; rfl
  view_find {x : Symbol} (s : Store) (env : FrameId) :
    D.Allowed x → (D.view s).find x env = s.find x env := by intros; rfl
  view_define {x : Symbol} (s : Store) (env : FrameId) (v : Value) :
    D.Allowed x → (D.view s).define env x v = D.view (s.define env x v) := by intros; rfl
  view_nameClosure (s : Store) (c : ClosureId) (x : Symbol) :
    (D.view s).nameClosure c x = D.view (s.nameClosure c x) := by intros; rfl
  view_newClosure (s : Store) (k : Closure) :
    (D.view s).newClosure k = (s.closures.size, D.view (s.newClosure k).2) := by intros; rfl
  view_newFrame (s : Store) (outer : FrameId) {params : List Symbol} (args : List Value) :
    (∀ x ∈ params, D.Allowed x) → (D.view s).newFrame (.ofArgs outer params args) =
      (s.frames.size, D.view (s.newFrame (.ofArgs outer params args)).2) := by intros; rfl
  view_emit (s : Store) (text : String) :
    (D.view s).emit text = D.view (s.emit text) := by intros; rfl
  view_nextShared (s : Store) :
    (D.view s).nextShared = (s.nextShared.1, D.view s.nextShared.2) := by intros; rfl

/-! ## Values -/

variable {D} (hD : D.Lawful) {s t : Store} {u v : Value}
include hD

theorem Lawful.holds_next (h : D.Next s t) (hv : D.Holds s v) : D.Holds t v :=
  fun u hu => hD.item_next h (hv u hu)

theorem Lawful.holds_code {e : Value} (h : e.Code D.Allowed) : D.Holds s e :=
  fun _ hu => hD.item_inert (h.of_occurs hu).isInert

theorem Lawful.holds_list {items : List Value} (h : ∀ v ∈ items, D.Holds s v) :
    D.Holds s (.list items) := by
  intro u hu
  rcases Value.occurs_list_iff.1 hu with rfl | ⟨w, hw, huw⟩
  · exact hD.item_inert rfl
  · exact h w hw u huw

theorem Lawful.holds_from {args : List Value} (hargs : ∀ a ∈ args, D.Holds s a)
    (h : Primitive.From args v) : D.Holds s v := by
  intro u hu
  rcases h u hu with hinert | ⟨a, ha, hua⟩
  · exact hD.item_inert hinert
  · exact hargs a ha u hua

theorem Lawful.holds_unspecified : D.Holds s .unspecified := by
  intro u hu
  cases hu
  exact hD.item_inert rfl

omit hD in
theorem Holds.items {items : List Value} (h : D.Holds s (.list items)) :
    ∀ v ∈ items, D.Holds s v := fun _ hv u hu => h u (.item hv hu)

end Discipline

/-! ## Computations -/

namespace Eval

variable {α β : Type}

def mapStore (f : Store → Store) : EStateM.Result Error Store α → EStateM.Result Error Store α
  | .ok a s => .ok a (f s)
  | .error e s => .error e (f s)

end Eval

namespace Discipline

open Eval

variable {α β : Type} (D : Discipline)

/-- From this store on the computation keeps the discipline, and its value is as asked. If there is
none, the program is at fault. In the view it does the same. -/
def Keeps (s : Store) (m : Eval α) (Q : Store → α → Prop) : Prop :=
  m (D.view s) = mapStore D.view (m s) ∧
    match m s with
    | .ok a t => D.Good t ∧ D.Next s t ∧ Q t a
    | .error e t => D.Good t ∧ D.Next s t ∧ e.IsFault

variable {D} {s t : Store} {m : Eval α} {f : α → Eval β} {Q : Store → α → Prop}
  {R : Store → β → Prop}

theorem keeps_ok {a : α} (hm : m s = .ok a t) (hview : m (D.view s) = .ok a (D.view t))
    (ht : D.Good t) (hnext : D.Next s t) (hq : Q t a) : D.Keeps s m Q := by
  unfold Keeps
  rw [hm]
  exact ⟨hview, ht, hnext, hq⟩

variable (hD : D.Lawful) (hs : D.Good s)
include hD

theorem keeps_bind (h : D.Keeps s m Q)
    (hf : ∀ t a, D.Good t → D.Next s t → Q t a → D.Keeps t (f a) R) :
    D.Keeps s (m >>= f) R := by
  obtain ⟨hview, houtcome⟩ := h
  have hbind (s : Store) : (m >>= f) s =
      match m s with
      | .ok a t => f a t
      | .error e t => .error e t := by
    simp only [bind, EStateM.bind]
    cases m s <;> rfl
  unfold Keeps
  rw [hbind, hbind, hview]
  cases hm : m s with
  | error e t =>
    rw [hm] at houtcome
    exact ⟨rfl, houtcome⟩
  | ok a t =>
    rw [hm] at houtcome
    obtain ⟨ht, hnext, hq⟩ := houtcome
    obtain ⟨hview', houtcome'⟩ := hf t a ht hnext hq
    refine ⟨hview', ?_⟩
    simp only
    cases hfa : f a t with
    | ok b u =>
      rw [hfa] at houtcome'
      exact ⟨houtcome'.1, hD.next_trans hnext houtcome'.2.1, houtcome'.2.2⟩
    | error e u =>
      rw [hfa] at houtcome'
      exact ⟨houtcome'.1, hD.next_trans hnext houtcome'.2.1, houtcome'.2.2⟩

include hs

theorem keeps_pure {a : α} (h : Q s a) : D.Keeps s (pure a) Q :=
  keeps_ok rfl rfl hs (hD.next_refl s) h

theorem keeps_throw {e : Error} (h : e.IsFault) : D.Keeps s (throw e : Eval α) Q :=
  ⟨rfl, hs, hD.next_refl s, h⟩

theorem keeps_ofExcept {r : Except Error α} (h : FaultOr (Q s) r) :
    D.Keeps s (Eval.ofExcept r) Q := by
  cases r with
  | ok a => exact keeps_pure hD hs h
  | error e => exact keeps_throw hD hs h

omit hD hs in
theorem keeps_get_bind {g : Store → Eval α} (hg : g (D.view s) = g s) (h : D.Keeps s (g s) Q) :
    D.Keeps s (get >>= g) Q := by
  unfold Keeps
  rw [get_bind_apply, get_bind_apply, hg]
  exact h

omit hs in
theorem Lawful.view_describe : (D.view s).describe = s.describe := by
  funext c
  rw [Store.describe, Store.describe, hD.view_closures]

theorem keeps_fail {error : Store → Error} (room : Nat) (v : Value)
    (hview : error (D.view s) = error s) (h : (error s).IsFault) :
    D.Keeps s (fail room v error : Eval α) Q := by
  have hvisit : D.Keeps s (Eval.ofExcept (v.visit room)) fun t _ => t = s :=
    keeps_ofExcept hD hs ((v.visit_faultOr room).imp fun _ _ => rfl)
  refine keeps_bind hD hvisit fun t _ ht _ hts => ?_
  subst hts
  exact keeps_get_bind (by rw [hview]) (keeps_throw hD ht h)

theorem keeps_failShowing {error : String → Error}
    (h : ∀ text, ShowsCode text → (error text).IsFault) (room : Nat) {e : Value}
    (he : e.Code D.Allowed) : D.Keeps s (failShowing room e error : Eval α) Q := by
  have hshows : ShowsCode (s.shown e) := ⟨s.describe, e, he.restrict fun _ _ => trivial, rfl⟩
  refine keeps_fail hD hs _ e ?_ (h _ hshows)
  simp only [Store.shown, hD.view_describe]

theorem keeps_notApplicable (room : Nat) (v : Value) :
    D.Keeps s (fail room v fun s => .notApplicable (s.write v) : Eval α) Q := by
  refine keeps_fail hD hs room v ?_ trivial
  simp only [Store.write, hD.view_describe]

/-! ## Operations -/

theorem keeps_lookup {x : Symbol} {env : FrameId} (hx : D.Allowed x) (henv : D.Open s env) :
    D.Keeps s (lookup x env) D.Holds := by
  unfold lookup
  refine keeps_get_bind ?_ ?_
  · simp only [hD.view_lookup s env hx]
  · cases h : s.lookup x env with
    | some v => exact keeps_pure hD hs (hD.lookup hs.2 henv h)
    | none => exact keeps_throw hD hs trivial

theorem keeps_define {x : Symbol} {v : Value} {env : FrameId} (hx : D.Allowed x)
    (henv : D.Open s env) (hv : D.Holds s v) :
    D.Keeps s (define x v env) fun _ _ => True := by
  have hleads := hD.define x hs.2 henv hv
  have hview : define x v env (D.view s) = .ok () (D.view (s.define env x v)) :=
    congrArg (EStateM.Result.ok ()) (hD.view_define s env v hx)
  exact keeps_ok rfl hview ⟨hs.1, hleads.1⟩ hleads.2 trivial

theorem keeps_assign {x : Symbol} {v : Value} {env : FrameId} (hx : D.Allowed x)
    (henv : D.Open s env) (hv : D.Holds s v) :
    D.Keeps s (assign x v env) fun _ _ => True := by
  unfold assign
  refine keeps_get_bind ?_ ?_
  · simp only [hD.view_find s env hx]
  · cases h : s.find x env with
    | some i => exact keeps_define hD hs hx (hD.find hs.2 henv h) hv
    | none => exact keeps_throw hD hs trivial

theorem keeps_nameValue {v : Value} (hv : D.Holds s v) (x : Symbol) :
    D.Keeps s (nameValue v x) fun _ _ => True := by
  unfold nameValue
  split
  · rename_i c
    have hleads := hD.nameClosure x hs.2 (hv _ .here)
    have hcode : (s.nameClosure c x).HoldsCode D.Allowed := by
      intro i k hk
      obtain ⟨k', hk', hparams, hbody, -⟩ := Store.closure_of_nameClosure hk
      rw [hparams, hbody]
      exact hs.1 i k' hk'
    have hview : nameValue (.closure c) x (D.view s) = .ok () (D.view (s.nameClosure c x)) :=
      congrArg (EStateM.Result.ok ()) (hD.view_nameClosure s c x)
    exact keeps_ok rfl hview ⟨hcode, hleads.1⟩ hleads.2 trivial
  · exact keeps_pure hD hs trivial

theorem keeps_newClosure {k : Closure} (henv : D.Open s k.env) (hnodup : k.params.Nodup)
    (hbody : ∀ e ∈ k.body, e.Code D.Allowed) (hparams : ∀ x ∈ k.params, D.Allowed x) :
    D.Keeps s (newClosure k) D.Holds := by
  obtain ⟨hleads, hitem⟩ := hD.newClosure hs.2 henv hnodup
  have hcode : (s.newClosure k).2.HoldsCode D.Allowed := by
    intro i k' hk
    obtain hk | ⟨-, rfl⟩ := Store.closure_of_newClosure hk
    · exact hs.1 i k' hk
    · exact ⟨hbody, hparams⟩
  have hview : newClosure k (D.view s) =
      .ok (.closure s.closures.size) (D.view (s.newClosure k).2) := by
    have h : newClosure k (D.view s) =
        .ok (.closure ((D.view s).newClosure k).1) ((D.view s).newClosure k).2 := rfl
    rw [h, hD.view_newClosure]
  refine keeps_ok rfl hview ⟨hcode, hleads.1⟩ hleads.2 ?_
  intro u hu
  cases hu
  exact hitem

theorem keeps_emit (text : String) : D.Keeps s (emit text) fun _ _ => True := by
  have hleads := hD.emit text hs.2
  have hview : emit text (D.view s) = .ok () (D.view (s.emit text)) :=
    congrArg (EStateM.Result.ok ()) (hD.view_emit s text)
  exact keeps_ok rfl hview ⟨hs.1, hleads.1⟩ hleads.2 trivial

theorem keeps_nextShared : D.Keeps s nextShared fun _ _ => True := by
  have hleads := hD.nextShared hs.2
  have hview : nextShared (D.view s) = .ok s.nextShared.1 (D.view s.nextShared.2) := by
    have h : nextShared (D.view s) = .ok (D.view s).nextShared.1 (D.view s).nextShared.2 := rfl
    rw [h, hD.view_nextShared]
  exact keeps_ok rfl hview ⟨hs.1, hleads.1⟩ hleads.2 trivial

theorem keeps_callFrame {c : ClosureId} {k : Closure} {args : List Value}
    (hc : D.Item s (.closure c)) (hk : s.closures[c]? = some k) (hargs : ∀ v ∈ args, D.Holds s v) :
    D.Keeps s (callFrame k args) D.Open := by
  unfold callFrame
  split
  · rename_i hcount
    obtain ⟨hleads, hopen⟩ := hD.newFrame hs.2 hc hk hcount hargs
    have hview : newFrame (.ofArgs k.env k.params args) (D.view s) =
        .ok s.frames.size (D.view (s.newFrame (.ofArgs k.env k.params args)).2) := by
      have h (f : Frame) : newFrame f (D.view s) =
          .ok ((D.view s).newFrame f).1 ((D.view s).newFrame f).2 := rfl
      rw [h, hD.view_newFrame s k.env args (hs.1 c k hk).2]
    exact keeps_ok rfl hview ⟨hs.1, hleads.1⟩ hleads.2 hopen
  · exact keeps_throw hD hs trivial

omit hD hs in
theorem allowed_of_symbols {es : List Value} {ps : List Symbol}
    (hes : ∀ e ∈ es, e.Code D.Allowed) (h : symbols? es = some ps) : ∀ x ∈ ps, D.Allowed x := by
  induction es generalizing ps with
  | nil =>
    cases h
    exact fun x hx => absurd hx List.not_mem_nil
  | cons e es ih =>
    obtain ⟨he, hrest⟩ := List.forall_mem_cons.1 hes
    cases he with
    | sym hx =>
      obtain ⟨qs, hqs, rfl⟩ := Option.map_eq_some_iff.1 h
      exact List.forall_mem_cons.2 ⟨hx, ih hrest hqs⟩
    | _ => cases h

theorem keeps_makeClosure (room : Nat) (name : Option Symbol) {params : Value} {body : List Value}
    {env : FrameId} (henv : D.Open s env) (hparams : params.Code D.Allowed)
    (hbody : ∀ e ∈ body, e.Code D.Allowed) :
    D.Keeps s (makeClosure room name params body env) D.Holds := by
  rw [makeClosure_eq]
  cases h : params.list?.bind symbols? with
  | none => exact keeps_failShowing hD hs (fun _ => id) room hparams
  | some ps =>
    obtain ⟨items, hitems, hps⟩ := Option.bind_eq_some_iff.1 h
    have hallowed : ∀ x ∈ ps, D.Allowed x := by
      cases hparams with
      | list hcode =>
        cases hitems
        exact allowed_of_symbols hcode hps
      | _ => cases hitems
    simp only
    split
    · rename_i hnodup
      exact keeps_newClosure hD hs (k := ⟨name, ps, body, env⟩) henv hnodup hbody hallowed
    · exact keeps_throw hD hs trivial

end Discipline

end Scheme
