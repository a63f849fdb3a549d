import Mathlib.Logic.Relation
import Scheme.Proofs.WellFormed

/-!
# What a frame can reach

Evaluation in a frame gets at what can be reached from there, and at nothing else.
-/

namespace Scheme

inductive Node where
  | frame (i : FrameId)
  | closure (c : ClosureId)

namespace Store

def Has (s : Store) : Node → Prop
  | .frame i => i < s.frames.size
  | .closure c => c < s.closures.size

/-- A frame leads to its outer frame and to the closures in its values, and a closure to the frame
that it was made in. -/
inductive Points (s : Store) : Node → Node → Prop where
  | outer {i outer : FrameId} {f : Frame} (here : s.frames[i]? = some f)
      (link : f.outer = some outer) : Points s (.frame i) (.frame outer)
  | bound {i : FrameId} {f : Frame} {v : Value} {c : ClosureId} (here : s.frames[i]? = some f)
      (value : v ∈ f.values) (inside : (Value.closure c).Occurs v) :
      Points s (.frame i) (.closure c)
  | captured {c : ClosureId} {k : Closure} (here : s.closures[c]? = some k) :
      Points s (.closure c) (.frame k.env)

abbrev Reaches (s : Store) : Node → Node → Prop := Relation.ReflTransGen s.Points

variable {s t : Store} {m n : Node}

theorem Points.has (h : s.Points m n) : s.Has m := by
  cases h with
  | outer here => exact (Array.getElem?_eq_some_iff.1 here).1
  | bound here => exact (Array.getElem?_eq_some_iff.1 here).1
  | captured here => exact (Array.getElem?_eq_some_iff.1 here).1

theorem Captures.has {c : ClosureId} (h : s.Captures c) : s.Has (.closure c) := by
  obtain ⟨k, hk, -⟩ := h
  exact (Array.getElem?_eq_some_iff.1 hk).1

theorem WellFormed.has_of_reaches (hs : s.WellFormed) (hm : s.Has m) (h : s.Reaches m n) :
    s.Has n := by
  induction h with
  | refl => exact hm
  | tail _ hpoints _ =>
    cases hpoints with
    | @outer i outer f here link =>
      have hi := (Array.getElem?_eq_some_iff.1 here).1
      exact Nat.lt_trans ((hs.frames i f here).older outer link) hi
    | bound here value inside => exact ((hs.frames _ _ here).captured _ value _ inside).has
    | captured here => exact (hs.closures _ _ here).made

/-! ## Regions -/

/-- Nothing leads out of the region, and there is room in it for all that is not there yet. -/
structure Encloses (s : Store) (G : Node → Prop) : Prop where
  closed : ∀ m n, G m → s.Points m n → G n
  room : ∀ n, ¬ s.Has n → G n

structure SameOutside (G : Node → Prop) (s t : Store) : Prop where
  frames : ∀ i, ¬ G (.frame i) → t.frames[i]? = s.frames[i]?
  closures : ∀ c, ¬ G (.closure c) → t.closures[c]? = s.closures[c]?

def region (s : Store) (start : Node) (n : Node) : Prop := s.Reaches start n ∨ ¬ s.Has n

theorem encloses_region (s : Store) (start : Node) : s.Encloses (s.region start) where
  closed m n hm hpoints := by
    obtain hm | hm := hm
    · exact Or.inl (hm.tail hpoints)
    · exact absurd hpoints.has hm
  room _ := Or.inr

variable {G : Node → Prop}

theorem Encloses.reaches (h : s.Encloses G) (hm : G m) (hreaches : s.Reaches m n) : G n := by
  induction hreaches with
  | refl => exact hm
  | tail _ hpoints ih => exact h.closed _ _ ih hpoints

theorem Encloses.search (h : s.Encloses G) {x : Symbol} {env i : FrameId} {v : Value}
    (henv : G (.frame env)) (hsearch : s.search x env = some (i, v)) : G (.frame i) := by
  fun_induction Store.search s x env with
  | case1 => simp at hsearch
  | case2 env f hf w hw =>
    obtain ⟨rfl, -⟩ := hsearch
    exact henv
  | case3 => simp at hsearch
  | case4 env f hf hw outer houter hlt ih => exact ih (h.closed _ _ henv (.outer hf houter)) hsearch
  | case5 => simp at hsearch

theorem Encloses.lookup (h : s.Encloses G) {x : Symbol} {env : FrameId} {v : Value}
    (henv : G (.frame env)) (hv : s.lookup x env = some v) {c : ClosureId}
    (hc : (Value.closure c).Occurs v) : G (.closure c) := by
  obtain ⟨⟨i, w⟩, hsearch, rfl⟩ := Option.map_eq_some_iff.1 hv
  obtain ⟨f, hf, hw⟩ := search_bound hsearch
  exact h.closed _ _ (h.search henv hsearch) (.bound hf (Frame.mem_values_of_value? hw) hc)

/-! ## Operations -/

theorem Encloses.step (h : s.Encloses G) (hhas : ∀ n, s.Has n → t.Has n)
    (hpoints : ∀ m n, t.Points m n → s.Points m n ∨ G n) : t.Encloses G where
  closed m n hm hmn := by
    obtain hmn | hn := hpoints m n hmn
    · exact h.closed m n hm hmn
    · exact hn
  room n hn := h.room n fun hs => hn (hhas n hs)

theorem Has.of_size_le (hframes : s.frames.size ≤ t.frames.size)
    (hclosures : s.closures.size ≤ t.closures.size) (n : Node) (h : s.Has n) : t.Has n := by
  cases n with
  | frame i => exact Nat.lt_of_lt_of_le h hframes
  | closure c => exact Nat.lt_of_lt_of_le h hclosures

theorem Encloses.define (h : s.Encloses G) (env : FrameId) (x : Symbol) {v : Value}
    (hv : ∀ c, (Value.closure c).Occurs v → G (.closure c)) : (s.define env x v).Encloses G := by
  have hhas := Has.of_size_le (grows_define s env x v).frames (Nat.le_refl s.closures.size)
  refine h.step hhas fun m n hmn => ?_
  cases hmn with
  | outer here link =>
    obtain here | ⟨-, f', before, rfl⟩ := frame_of_define here
    · exact Or.inl (.outer here link)
    · exact Or.inl (.outer before link)
  | bound here value inside =>
    obtain here | ⟨-, f', before, rfl⟩ := frame_of_define here
    · exact Or.inl (.bound here value inside)
    · obtain rfl | value := Frame.mem_values_define value
      · exact Or.inr (hv _ inside)
      · exact Or.inl (.bound before value inside)
  | captured here => exact Or.inl (.captured here)

theorem Encloses.nameClosure (h : s.Encloses G) (c : ClosureId) (x : Symbol) :
    (s.nameClosure c x).Encloses G := by
  have hsize : s.closures.size ≤ (s.nameClosure c x).closures.size :=
    Nat.le_of_eq (Array.size_modify ..).symm
  refine h.step (Has.of_size_le (Nat.le_refl s.frames.size) hsize) fun m n hmn => ?_
  cases hmn with
  | outer here link => exact Or.inl (.outer here link)
  | bound here value inside => exact Or.inl (.bound here value inside)
  | captured here =>
    obtain ⟨k', before, -, -, henv⟩ := closure_of_nameClosure here
    rw [henv]
    exact Or.inl (.captured before)

theorem Encloses.newClosure (h : s.Encloses G) {k : Closure} (henv : G (.frame k.env)) :
    (s.newClosure k).2.Encloses G := by
  have hsize : s.closures.size ≤ (s.newClosure k).2.closures.size := by simp [Store.newClosure]
  refine h.step (Has.of_size_le (Nat.le_refl s.frames.size) hsize) fun m n hmn => ?_
  cases hmn with
  | outer here link => exact Or.inl (.outer here link)
  | bound here value inside => exact Or.inl (.bound here value inside)
  | captured here =>
    obtain here | ⟨-, rfl⟩ := closure_of_newClosure here
    · exact Or.inl (.captured here)
    · exact Or.inr henv

theorem Encloses.newFrame (h : s.Encloses G) {outer : FrameId} (houter : G (.frame outer))
    (params : List Symbol) {args : List Value}
    (hargs : ∀ v ∈ args, ∀ c, (Value.closure c).Occurs v → G (.closure c)) :
    (s.newFrame (.ofArgs outer params args)).2.Encloses G := by
  have hsize := (grows_newFrame s (.ofArgs outer params args)).frames
  refine h.step (Has.of_size_le hsize (Nat.le_refl s.closures.size)) fun m n hmn => ?_
  cases hmn with
  | outer here link =>
    obtain here | ⟨-, rfl⟩ := frame_of_newFrame here
    · exact Or.inl (.outer here link)
    · rw [Frame.outer_ofArgs] at link
      cases link
      exact Or.inr houter
  | bound here value inside =>
    obtain here | ⟨-, rfl⟩ := frame_of_newFrame here
    · exact Or.inl (.bound here value inside)
    · exact Or.inr (hargs _ (Frame.mem_values_ofArgs value) _ inside)
  | captured here => exact Or.inl (.captured here)

/-- What else is in a store leads nowhere. -/
theorem Encloses.congr (h : s.Encloses G) (hframes : t.frames = s.frames)
    (hclosures : t.closures = s.closures) : t.Encloses G := by
  have hhas := Has.of_size_le (s := s) (t := t) (Nat.le_of_eq (by rw [hframes]))
    (Nat.le_of_eq (by rw [hclosures]))
  refine h.step hhas fun m n hmn => ?_
  cases hmn with
  | outer here link => exact Or.inl (.outer (hframes ▸ here) link)
  | bound here value inside => exact Or.inl (.bound (hframes ▸ here) value inside)
  | captured here => exact Or.inl (.captured (hclosures ▸ here))

theorem sameOutside_define (s : Store) {env : FrameId} (henv : G (.frame env)) (x : Symbol)
    (v : Value) : SameOutside G s (s.define env x v) where
  frames i hi := by
    rw [frames_define, if_neg]
    rintro rfl
    exact hi henv
  closures _ _ := rfl

theorem sameOutside_nameClosure (s : Store) {c : ClosureId} (hc : G (.closure c)) (x : Symbol) :
    SameOutside G s (s.nameClosure c x) where
  frames _ _ := rfl
  closures i hi := by
    rw [closures_nameClosure, if_neg]
    rintro rfl
    exact hi hc

theorem Encloses.sameOutside_newClosure (h : s.Encloses G) (k : Closure) :
    SameOutside G s (s.newClosure k).2 where
  frames _ _ := rfl
  closures c hc :=
    s.closures_newClosure k (Decidable.not_not.1 fun hs => hc (h.room (.closure c) hs))

theorem Encloses.sameOutside_newFrame (h : s.Encloses G) (f : Frame) :
    SameOutside G s (s.newFrame f).2 where
  frames i hi := s.frames_newFrame f (Decidable.not_not.1 fun hs => hi (h.room (.frame i) hs))
  closures _ _ := rfl

theorem SameOutside.refl (G : Node → Prop) (s : Store) : SameOutside G s s :=
  ⟨fun _ _ => rfl, fun _ _ => rfl⟩

theorem SameOutside.trans {u : Store} (h : SameOutside G s t) (h' : SameOutside G t u) :
    SameOutside G s u :=
  ⟨fun i hi => (h'.frames i hi).trans (h.frames i hi),
    fun c hc => (h'.closures c hc).trans (h.closures c hc)⟩

end Store

/-! ## Evaluation -/

/-- Evaluation stays in the region: frames that it is in, closures in its values, and changes. -/
def enclosure (G : Node → Prop) : Discipline where
  Inv s := s.Encloses G
  Next := Store.SameOutside G
  Open _ i := G (.frame i)
  Item _ u := ∀ c, u = .closure c → G (.closure c)

theorem lawful_enclosure (G : Node → Prop) : (enclosure G).Lawful where
  next_refl := Store.SameOutside.refl G
  next_trans := Store.SameOutside.trans
  open_next _ henv := henv
  item_next _ hu := hu
  item_inert := by
    rintro s u hu c rfl
    cases hu
  lookup hs henv hv := by
    rintro u hu c rfl
    exact hs.lookup henv hv hu
  find hs henv hi := by
    obtain ⟨⟨j, v⟩, hsearch, rfl⟩ := Option.map_eq_some_iff.1 hi
    exact hs.search henv hsearch
  define x v hs henv hv :=
    ⟨hs.define _ x fun c hc => hv _ hc c rfl, Store.sameOutside_define _ henv x _⟩
  nameClosure x hs hc := ⟨hs.nameClosure _ x, Store.sameOutside_nameClosure _ (hc _ rfl) x⟩
  newClosure {s k} hs henv _ := by
    refine ⟨⟨hs.newClosure henv, hs.sameOutside_newClosure k⟩, ?_⟩
    rintro c hc
    cases hc
    exact hs.room _ (Nat.lt_irrefl _)
  newFrame {s c k args} hs hc hk _ hargs := by
    -- A call is in the reach of its closure: the outer frame is the one that was captured.
    have henv : G (.frame k.env) := hs.closed _ _ (hc c rfl) (.captured hk)
    have hnew := hs.newFrame henv k.params fun v hv c hc => hargs v hv _ hc c rfl
    exact ⟨⟨hnew, hs.sameOutside_newFrame _⟩, hs.room _ (Nat.lt_irrefl _)⟩
  emit _ hs := ⟨hs.congr rfl rfl, fun _ _ => rfl, fun _ _ => rfl⟩
  nextShared hs := ⟨hs.congr rfl rfl, fun _ _ => rfl, fun _ _ => rfl⟩

/-- The node could be reached before, or it is new. -/
def Store.Earned (env : FrameId) (s t : Store) (n : Node) : Prop :=
  s.Reaches (.frame env) n ∨ ¬ s.Has n ∧ t.Has n

/-- What was out of reach for the frame is as it was, and what is in its reach is earned. -/
structure Store.Encapsulates (env : FrameId) (s t : Store) : Prop where
  frames : ∀ i, s.Has (.frame i) → ¬ s.Reaches (.frame env) (.frame i) → t.frames[i]? = s.frames[i]?
  closures : ∀ c, s.Has (.closure c) → ¬ s.Reaches (.frame env) (.closure c) →
    t.closures[c]? = s.closures[c]?
  reached : ∀ n, t.Reaches (.frame env) n → Earned env s t n

theorem Store.earned {s t : Store} {env : FrameId} {m n : Node} (ht : t.WellFormed)
    (hclosed : t.Encloses (s.region (.frame env))) (hm : s.region (.frame env) m) (hhas : t.Has m)
    (h : t.Reaches m n) : Earned env s t n :=
  (hclosed.reaches hm h).imp_right fun hn => ⟨hn, ht.has_of_reaches hhas h⟩

namespace Session

/-- **Captured state is encapsulated.** -/
theorem Reached.encapsulates {s : Session} (h : s.Reached) {env : FrameId}
    (henv : env < s.store.frames.size) {e : Value} (he : e.IsRead) (depth : Nat) :
    s.store.Encapsulates env ((evaluate depth e env).after s.store) ∧
      ∀ v t, evaluate depth e env s.store = .ok v t → ∀ c n, (Value.closure c).Occurs v →
        t.Reaches (.closure c) n → Store.Earned env s.store t n := by
  have hgood := h.good_wellFormedness
  -- The region is fixed by the store before: all that is made on the way is in it.
  let G := s.store.region (.frame env)
  have hthere : wellFormedness.Open s.store env := henv
  obtain ⟨hwell, hgrows, hcaptured⟩ := lawful_wellFormedness.evaluate hgood hthere he.code depth
  have hG : (enclosure G).Open s.store env := Or.inl .refl
  obtain ⟨hclosed, hsame, hheld⟩ :=
    (lawful_enclosure G).evaluate ⟨hgood.1, s.store.encloses_region _⟩ hG he.code depth
  have hoff {n : Node} (hn : s.store.Has n) (hreach : ¬ s.store.Reaches (.frame env) n) : ¬ G n :=
    not_or.2 ⟨hreach, fun hnew => hnew hn⟩
  refine ⟨⟨fun i hi hreach => ?_, fun c hc hreach => ?_, fun n hn => ?_⟩, ?_⟩
  · exact hsame.frames i (hoff hi hreach)
  · exact hsame.closures c (hoff hc hreach)
  · exact Store.earned hwell.2 hclosed.2 hG (Nat.lt_of_lt_of_le henv hgrows.frames) hn
  · intro v t hv c n hc hn
    have ht : (evaluate depth e env).after s.store = t := by
      unfold Eval.after
      rw [hv]
    subst ht
    have hhas := (captures_of_holds (hcaptured v _ hv) hc).has
    exact Store.earned hwell.2 hclosed.2 (hheld v _ hv _ hc c rfl) hhas hn

/-- The frame and the closure of a counter that was made for a single call are out of reach. -/
def afterCounting : Session :=
  ((fresh 100).eval "(define (counter n) (lambda () (set! n (+ n 1)) n)) ((counter 0))").2

def anotherCounter : Value := .list [.sym ⟨"counter", by decide⟩, .num (.int 5)]

theorem isRead_anotherCounter : anotherCounter.IsRead :=
  ⟨100, "(counter 5)".toList, [anotherCounter], by rfl, by simp⟩

theorem encapsulates_anotherCounter :
    afterCounting.Reached ∧ globalFrame < afterCounting.store.frames.size ∧
      afterCounting.store.Encapsulates globalFrame
        ((evaluate 50 anotherCounter globalFrame).after afterCounting.store) :=
  have h : afterCounting.Reached := .eval (reached_fresh 100) _
  have henv : globalFrame < afterCounting.store.frames.size := by decide +kernel
  ⟨h, henv, (Reached.encapsulates h henv isRead_anotherCounter 50).1⟩

end Session

end Scheme
