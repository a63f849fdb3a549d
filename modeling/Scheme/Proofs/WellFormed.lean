import Scheme.Proofs.Evaluation

/-!
# Well-formed stores

Outer links lead to older frames, and no variable is in a frame twice.
-/

namespace Scheme

namespace Store

/-- The closure is there, and so is the frame that it was made in. -/
def Captures (s : Store) (c : ClosureId) : Prop :=
  ∃ k, s.closures[c]? = some k ∧ k.env < s.frames.size

/-- A frame as it can be at its place in the store. Only the global frame was not made by a call;
any other frame has the parameters of its closure first. -/
structure FrameFits (s : Store) (i : FrameId) (f : Frame) : Prop where
  older : ∀ outer, f.outer = some outer → outer < i
  once : f.names.Nodup
  captured : ∀ v ∈ f.values, ∀ c, (Value.closure c).Occurs v → s.Captures c
  called : i ≠ Session.globalFrame →
    ∃ (c : ClosureId) (k : Closure),
      s.closures[c]? = some k ∧ f.outer = some k.env ∧ k.params <+: f.names

structure ClosureFits (s : Store) (k : Closure) : Prop where
  distinct : k.params.Nodup
  made : k.env < s.frames.size

structure WellFormed (s : Store) : Prop where
  global : Session.globalFrame < s.frames.size
  frames : ∀ (i : FrameId) (f : Frame), s.frames[i]? = some f → s.FrameFits i f
  closures : ∀ (c : ClosureId) (k : Closure), s.closures[c]? = some k → s.ClosureFits k

/-! ## Growth -/

/-- Nothing goes away, and a closure keeps its parameters and its frame. -/
structure Grows (s t : Store) : Prop where
  frames : s.frames.size ≤ t.frames.size
  closures : ∀ (c : ClosureId) (k : Closure), s.closures[c]? = some k →
    ∃ k', t.closures[c]? = some k' ∧ k'.params = k.params ∧ k'.env = k.env

variable {s t u : Store}

theorem Grows.of_eq (hframes : s.frames.size ≤ t.frames.size)
    (hclosures : t.closures = s.closures) : s.Grows t :=
  ⟨hframes, fun _ k hk => ⟨k, by rw [hclosures, hk], rfl, rfl⟩⟩

theorem Grows.trans (h : s.Grows t) (h' : t.Grows u) : s.Grows u where
  frames := Nat.le_trans h.frames h'.frames
  closures := by
    intro c k hk
    obtain ⟨k₁, hk₁, hparams₁, henv₁⟩ := h.closures c k hk
    obtain ⟨k₂, hk₂, hparams₂, henv₂⟩ := h'.closures c k₁ hk₁
    exact ⟨k₂, hk₂, hparams₂.trans hparams₁, henv₂.trans henv₁⟩

theorem grows_define (s : Store) (env : FrameId) (x : Symbol) (v : Value) :
    s.Grows (s.define env x v) :=
  .of_eq (Nat.le_of_eq (Array.size_modify ..).symm) rfl

theorem grows_newFrame (s : Store) (f : Frame) : s.Grows (s.newFrame f).2 :=
  .of_eq (by simp [newFrame]) rfl

theorem grows_newClosure (s : Store) (k : Closure) : s.Grows (s.newClosure k).2 where
  frames := Nat.le_refl _
  closures c k' hk := by
    have hc := (Array.getElem?_eq_some_iff.1 hk).1
    exact ⟨k', by rw [closures_newClosure s k hc, hk], rfl, rfl⟩

theorem grows_nameClosure (s : Store) (c : ClosureId) (x : Symbol) :
    s.Grows (s.nameClosure c x) where
  frames := Nat.le_refl _
  closures i k hk := by
    rw [closures_nameClosure, hk]
    split
    · exact ⟨_, rfl, rfl, rfl⟩
    · exact ⟨k, rfl, rfl, rfl⟩

theorem Captures.grow {c : ClosureId} (h : s.Captures c) (hst : s.Grows t) : t.Captures c := by
  obtain ⟨k, hk, henv⟩ := h
  obtain ⟨k', hk', -, henv'⟩ := hst.closures c k hk
  exact ⟨k', hk', by rw [henv']; exact Nat.lt_of_lt_of_le henv hst.frames⟩

theorem FrameFits.grow {i : FrameId} {f : Frame} (h : s.FrameFits i f) (hst : s.Grows t) :
    t.FrameFits i f where
  older := h.older
  once := h.once
  captured v hv c hc := (h.captured v hv c hc).grow hst
  called hi := by
    obtain ⟨c, k, hk, houter, hparams⟩ := h.called hi
    obtain ⟨k', hk', hparams', henv'⟩ := hst.closures c k hk
    exact ⟨c, k', hk', henv' ▸ houter, hparams' ▸ hparams⟩

theorem ClosureFits.grow {k : Closure} (h : s.ClosureFits k) (hst : s.Grows t) :
    t.ClosureFits k :=
  ⟨h.distinct, Nat.lt_of_lt_of_le h.made hst.frames⟩

/-! ## Searches -/

def IsOuter (s : Store) (i j : FrameId) : Prop := ∃ f, s.frames[j]? = some f ∧ f.outer = some i

/-- The way outward from a frame is finite. -/
theorem WellFormed.wellFounded_isOuter (h : s.WellFormed) : WellFounded s.IsOuter := by
  refine Subrelation.wf (r := (· < ·)) ?_ Nat.lt_wfRel.wf
  rintro i j ⟨f, hf, houter⟩
  exact (h.frames j f hf).older i houter

theorem WellFormed.search_outer (h : s.WellFormed) {x : Symbol} {i outer : FrameId} {f : Frame}
    (hf : s.frames[i]? = some f) (hx : f.value? x = none) (houter : f.outer = some outer) :
    s.search x i = s.search x outer := by
  rw [search, hf]
  simp only [hx, houter, if_pos ((h.frames i f hf).older outer houter)]

theorem WellFormed.captures (h : s.WellFormed) {c : ClosureId} {k : Closure}
    (hk : s.closures[c]? = some k) : s.Captures c :=
  ⟨k, hk, (h.closures c k hk).made⟩

theorem WellFormed.captures_of_lookup (h : s.WellFormed) {x : Symbol} {env : FrameId} {v : Value}
    (hv : s.lookup x env = some v) {c : ClosureId} (hc : (Value.closure c).Occurs v) :
    s.Captures c := by
  obtain ⟨⟨i, w⟩, hsearch, rfl⟩ := Option.map_eq_some_iff.1 hv
  obtain ⟨f, hf, hw⟩ := search_bound hsearch
  exact (h.frames i f hf).captured w (Frame.mem_values_of_value? hw) c hc

/-! ## Operations -/

theorem WellFormed.congr (h : s.WellFormed) (hframes : t.frames = s.frames)
    (hclosures : t.closures = s.closures) : t.WellFormed := by
  have hgrows : s.Grows t := .of_eq (Nat.le_of_eq (by rw [hframes])) hclosures
  refine ⟨hframes ▸ h.global, fun i f hf => ?_, fun c k hk => ?_⟩
  · exact (h.frames i f (hframes ▸ hf)).grow hgrows
  · exact (h.closures c k (hclosures ▸ hk)).grow hgrows

theorem FrameFits.define {i : FrameId} {f : Frame} (h : s.FrameFits i f) (x : Symbol) {v : Value}
    (hv : ∀ c, (Value.closure c).Occurs v → s.Captures c) : s.FrameFits i (f.define x v) where
  older := h.older
  once := by
    rw [Frame.names_define]
    split
    · exact h.once
    · rename_i hx
      rw [List.nodup_append]
      refine ⟨h.once, by simp, ?_⟩
      rintro y hy z hz rfl
      exact hx (List.mem_singleton.1 hz ▸ hy)
  captured w hw c hc := by
    obtain rfl | hw := Frame.mem_values_define hw
    · exact hv c hc
    · exact h.captured w hw c hc
  called hi := by
    obtain ⟨c, k, hk, houter, hparams⟩ := h.called hi
    -- New names are behind the parameters.
    refine ⟨c, k, hk, houter, hparams.trans ?_⟩
    rw [Frame.names_define]
    split
    · exact List.prefix_refl _
    · exact List.prefix_append _ _

theorem WellFormed.define (h : s.WellFormed) (env : FrameId) (x : Symbol) {v : Value}
    (hv : ∀ c, (Value.closure c).Occurs v → s.Captures c) : (s.define env x v).WellFormed where
  global := Nat.lt_of_lt_of_le h.global (grows_define s env x v).frames
  frames i f hf := by
    refine FrameFits.grow ?_ (grows_define s env x v)
    obtain hf | ⟨-, f', hf', rfl⟩ := frame_of_define hf
    · exact h.frames i f hf
    · exact (h.frames i f' hf').define x hv
  closures c k hk := (h.closures c k hk).grow (grows_define s env x v)

theorem WellFormed.nameClosure (h : s.WellFormed) (c : ClosureId) (x : Symbol) :
    (s.nameClosure c x).WellFormed where
  global := h.global
  frames i f hf := (h.frames i f hf).grow (grows_nameClosure s c x)
  closures i k hk := by
    obtain ⟨k', hk', hparams, -, henv⟩ := closure_of_nameClosure hk
    have hfits := (h.closures i k' hk').grow (grows_nameClosure s c x)
    exact ⟨hparams ▸ hfits.distinct, henv ▸ hfits.made⟩

theorem WellFormed.newClosure (h : s.WellFormed) {k : Closure} (henv : k.env < s.frames.size)
    (hparams : k.params.Nodup) : (s.newClosure k).2.WellFormed where
  global := h.global
  frames i f hf := (h.frames i f hf).grow (grows_newClosure s k)
  closures c k' hk := by
    obtain hk | ⟨-, rfl⟩ := closure_of_newClosure hk
    · exact (h.closures c k' hk).grow (grows_newClosure s k)
    · exact ⟨hparams, henv⟩

theorem WellFormed.names_ofArgs (h : s.WellFormed) {c : ClosureId} {k : Closure}
    {args : List Value} (hk : s.closures[c]? = some k) (hcount : k.params.length = args.length) :
    (Frame.ofArgs k.env k.params args).names = k.params := by
  unfold Frame.names
  rw [Frame.bindings_ofArgs _ (h.closures c k hk).distinct hcount]
  exact List.map_fst_zip (Nat.le_of_eq hcount)

theorem WellFormed.callFrame (h : s.WellFormed) {c : ClosureId} {k : Closure} {args : List Value}
    (hk : s.closures[c]? = some k) {i : FrameId} (hcall : Eval.callFrame k args s = .ok i t) :
    ∃ f, t.frames[i]? = some f ∧ f.names = k.params ∧ f.bindings = k.params.zip args := by
  unfold Eval.callFrame at hcall
  split at hcall
  · rename_i hcount
    cases hcall
    have hbindings := Frame.bindings_ofArgs k.env (h.closures c k hk).distinct hcount
    exact ⟨_, frame_newFrame s _, h.names_ofArgs hk hcount, hbindings⟩
  · cases hcall

theorem WellFormed.newFrame (h : s.WellFormed) {c : ClosureId} {k : Closure} {args : List Value}
    (hk : s.closures[c]? = some k) (hcount : k.params.length = args.length)
    (hargs : ∀ v ∈ args, ∀ c, (Value.closure c).Occurs v → s.Captures c) :
    (s.newFrame (.ofArgs k.env k.params args)).2.WellFormed where
  global := Nat.lt_of_lt_of_le h.global (grows_newFrame s _).frames
  frames i f hf := by
    refine FrameFits.grow (s := s) ?_ (grows_newFrame s _)
    obtain hf | ⟨rfl, rfl⟩ := frame_of_newFrame hf
    · exact h.frames i f hf
    · have hfits := h.closures c k hk
      have hnames := h.names_ofArgs hk hcount
      have houter := Frame.outer_ofArgs k.env k.params args
      refine ⟨?_, by rw [hnames]; exact hfits.distinct, ?_, ?_⟩
      · rintro outer hlink
        rw [houter] at hlink
        cases hlink
        exact hfits.made
      · exact fun v hv => hargs v (Frame.mem_values_ofArgs hv)
      · exact fun _ => ⟨c, k, hk, houter, by simp [hnames]⟩
  closures c' k' hk' := (h.closures c' k' hk').grow (grows_newFrame s _)

end Store

/-! ## Evaluation -/

/-- Stores stay well formed. Evaluation is in frames that are there, and the closures in values are
there. -/
def wellFormedness : Discipline where
  Inv := Store.WellFormed
  Next := Store.Grows
  Open s env := env < s.frames.size
  Item s u := ∀ c, u = .closure c → s.Captures c

theorem captures_of_holds {s : Store} {v : Value} (h : wellFormedness.Holds s v) {c : ClosureId}
    (hc : (Value.closure c).Occurs v) : s.Captures c :=
  h _ hc c rfl

theorem lawful_wellFormedness : wellFormedness.Lawful where
  next_refl s := .of_eq (Nat.le_refl _) rfl
  next_trans := Store.Grows.trans
  open_next hst henv := Nat.lt_of_lt_of_le henv hst.frames
  item_next hst hu c hc := (hu c hc).grow hst
  item_inert := by
    rintro s u hu c rfl
    cases hu
  lookup hs _ hv := by
    rintro u hu c rfl
    exact hs.captures_of_lookup hv hu
  find _ _ hi := by
    obtain ⟨f, hf, -⟩ := Store.find_bound hi
    exact (Array.getElem?_eq_some_iff.1 hf).1
  define x _ hs _ hv := ⟨hs.define _ x fun _ => captures_of_holds hv, Store.grows_define _ _ x _⟩
  nameClosure x hs _ := ⟨hs.nameClosure _ x, Store.grows_nameClosure _ _ x⟩
  newClosure {s k} hs henv hparams := by
    have hnew := hs.newClosure henv hparams
    refine ⟨⟨hnew, Store.grows_newClosure s k⟩, ?_⟩
    rintro c hc
    cases hc
    exact hnew.captures (Store.closure_newClosure s k)
  newFrame {s c k args} hs _ hk hcount hargs := by
    have hnew := hs.newFrame hk hcount fun v hv _ => captures_of_holds (hargs v hv)
    exact ⟨⟨hnew, Store.grows_newFrame s _⟩, by simp [wellFormedness, Store.newFrame]⟩
  emit _ hs := ⟨hs.congr rfl rfl, .of_eq (Nat.le_refl _) rfl⟩
  nextShared hs := ⟨hs.congr rfl rfl, .of_eq (Nat.le_refl _) rfl⟩

namespace Session

theorem nodup_initialNames : (initialBindings.map Prod.fst).Nodup := by
  decide +kernel

theorem wellFormed_start (limit : Nat) (shared : Nat → Sharing) :
    (start limit shared).store.WellFormed where
  global := Nat.zero_lt_one
  frames i f hf := by
    obtain ⟨rfl, rfl⟩ := frame_start hf
    refine ⟨by simp, nodup_initialNames, ?_, fun hglobal => absurd rfl hglobal⟩
    intro v hv c hc
    have hinert := isInert_of_occurs_start hf hv hc
    cases hinert
  closures c k hk := by simp [start] at hk

theorem Reached.good_wellFormedness {s : Session} (h : s.Reached) : wellFormedness.Good s.store :=
  lawful_wellFormedness.good_reached (fun _ => trivial) wellFormed_start (fun _ _ _ henv => henv)
    (fun _ hs => hs.global) (fun _ hs => hs.congr rfl rfl) h

/-- **Sessions are well formed**, whatever fails. -/
theorem Reached.wellFormed {s : Session} (h : s.Reached) :
    s.store.WellFormed ∧ WellFounded s.store.IsOuter ∧
      (∀ (x : Symbol) (i outer : FrameId) (f : Frame), s.store.frames[i]? = some f →
        f.value? x = none → f.outer = some outer → s.store.search x i = s.store.search x outer) ∧
      (∀ (c : ClosureId) (k : Closure) (args : List Value) (i : FrameId) (t : Store),
        s.store.closures[c]? = some k → Eval.callFrame k args s.store = .ok i t →
          ∃ f, t.frames[i]? = some f ∧ f.names = k.params ∧ f.bindings = k.params.zip args) ∧
      ∀ (source : String) (v : Value) (c : ClosureId), (s.eval source).1 = .ok v →
        (Value.closure c).Occurs v → (s.eval source).2.store.Captures c := by
  have hgood := h.good_wellFormedness
  have hwell : s.store.WellFormed := hgood.2
  refine ⟨hwell, hwell.wellFounded_isOuter, fun x i outer f hf hx houter => ?_,
    fun c k args i t hk hcall => hwell.callFrame hk hcall, fun source v c hv hc => ?_⟩
  · exact hwell.search_outer hf hx houter
  · have hanswered := lawful_wellFormedness.eval hgood source hwell.global
      fun es hes => code_of_parse hes
    have hvalue := hanswered.1.value
    rw [hv] at hvalue
    exact captures_of_holds hvalue hc

theorem reached_failedCall :
    ((fresh 100).eval "(define (f x) (car x)) (f 1)").2.Reached ∧
      ((fresh 100).eval "(define (f x) (car x)) (f 1)").2.store.WellFormed :=
  have h := Reached.eval (reached_fresh 100) "(define (f x) (car x)) (f 1)"
  ⟨h, (Reached.wellFormed h).1⟩

end Session

end Scheme
