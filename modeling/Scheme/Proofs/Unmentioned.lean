import Scheme.Proofs.Evaluation

/-!
# Names that are not mentioned

A program cannot tell what a name that it does not mention is bound to.
-/

namespace Scheme

/-! ## Stores without the bindings of a name -/

namespace Frame

def without (x : Symbol) (f : Frame) : Frame :=
  { f with bindings := f.bindings.filter fun b => b.1 ≠ x }

variable {x y : Symbol}

theorem outer_without (f : Frame) : (f.without x).outer = f.outer := rfl

theorem without_without (f : Frame) : (f.without x).without x = f.without x := by
  simp [without]

theorem without_of_notMem {f : Frame} (h : ∀ b ∈ f.bindings, b.1 ≠ x) : f.without x = f := by
  unfold without
  rw [List.filter_eq_self.2 fun b hb => decide_eq_true (h b hb)]

theorem value?_without (h : y ≠ x) (f : Frame) : (f.without x).value? y = f.value? y := by
  simp only [value?, without, List.find?_filter]
  congr 2
  funext b
  by_cases hb : b.1 = y
  · simp [hb, h]
  · simp [hb]

theorem put_without_same (v : Value) (bindings : List (Symbol × Value)) :
    (put x v bindings).filter (fun b => b.1 ≠ x) = bindings.filter fun b => b.1 ≠ x := by
  induction bindings with
  | nil => simp [put]
  | cons b rest ih =>
    obtain ⟨z, w⟩ := b
    rw [put]
    split
    · rename_i hz
      simp [hz]
    · simp only [List.filter_cons, ih]

theorem put_without (h : y ≠ x) (v : Value) (bindings : List (Symbol × Value)) :
    (put y v bindings).filter (fun b => b.1 ≠ x) =
      put y v (bindings.filter fun b => b.1 ≠ x) := by
  induction bindings with
  | nil => simp [put, h]
  | cons b rest ih =>
    obtain ⟨z, w⟩ := b
    by_cases hz : z = y
    · subst hz
      simp [put, h]
    · by_cases hx : z = x
      · subst hx
        simpa [put, hz] using ih
      · simpa [put, hz, hx] using ih

theorem without_define_same (f : Frame) (v : Value) : (f.define x v).without x = f.without x := by
  unfold without define
  rw [put_without_same]

theorem without_define (h : y ≠ x) (f : Frame) (v : Value) :
    (f.define y v).without x = (f.without x).define y v := by
  unfold without define
  rw [put_without h]

theorem without_ofArgs (outer : FrameId) {params : List Symbol} (args : List Value)
    (h : ∀ y ∈ params, y ≠ x) : (ofArgs outer params args).without x = ofArgs outer params args :=
  without_of_notMem fun b hb => h b.1 (List.of_mem_zip (mem_ofArgs hb)).1

end Frame

namespace Store

/-- The store as it looks to a program that does not mention `x`. -/
def without (x : Symbol) (s : Store) : Store := { s with frames := s.frames.map (Frame.without x) }

variable {x y : Symbol}

theorem frames_without (s : Store) (i : FrameId) :
    (s.without x).frames[i]? = s.frames[i]?.map (Frame.without x) := by
  simp [without]

theorem without_congr {s t : Store} (hclosures : s.closures = t.closures)
    (houtput : s.output = t.output) (hshared : s.shared = t.shared)
    (hcomparisons : s.comparisons = t.comparisons)
    (hframes : ∀ i : FrameId,
      s.frames[i]?.map (Frame.without x) = t.frames[i]?.map (Frame.without x)) :
    s.without x = t.without x := by
  have h : s.frames.map (Frame.without x) = t.frames.map (Frame.without x) := by
    apply Array.ext_getElem?
    intro i
    simpa using hframes i
  unfold without
  rw [h, hclosures, houtput, hshared, hcomparisons]

theorem without_without (s : Store) : (s.without x).without x = s.without x := by
  refine without_congr rfl rfl rfl rfl fun i => ?_
  rw [frames_without, Option.map_map]
  congr 1
  funext f
  exact f.without_without

theorem search_without (h : y ≠ x) (s : Store) (env : FrameId) :
    (s.without x).search y env = s.search y env := by
  fun_induction Store.search s y env with
  | case1 env hf => rw [search, frames_without, hf]; rfl
  | case2 env f hf v hv =>
    rw [search, frames_without, hf]
    simp only [Option.map_some, Frame.value?_without h, hv]
  | case3 env f hf hv houter =>
    rw [search, frames_without, hf]
    simp only [Option.map_some, Frame.value?_without h, hv, Frame.outer_without, houter]
  | case4 env f hf hv outer houter hlt ih =>
    rw [search, frames_without, hf]
    simp only [Option.map_some, Frame.value?_without h, hv, Frame.outer_without, houter, if_pos hlt]
    exact ih
  | case5 env f hf hv outer houter hlt =>
    rw [search, frames_without, hf]
    simp only [Option.map_some, Frame.value?_without h, hv, Frame.outer_without, houter, if_neg hlt]

theorem without_define_same (s : Store) (env : FrameId) (v : Value) :
    (s.define env x v).without x = s.without x := by
  refine without_congr rfl rfl rfl rfl fun i => ?_
  rw [frames_define]
  split
  · rw [Option.map_map]
    congr 1
    funext f
    exact f.without_define_same v
  · rfl

theorem define_without (h : y ≠ x) (s : Store) (env : FrameId) (v : Value) :
    (s.without x).define env y v = (s.define env y v).without x := by
  have hframes : ((s.without x).define env y v).frames = ((s.define env y v).without x).frames := by
    apply Array.ext_getElem?
    intro i
    rw [frames_define, frames_without, frames_without, frames_define]
    split
    · rw [Option.map_map, Option.map_map]
      congr 1
      funext f
      exact (Frame.without_define h f v).symm
    · rfl
  exact congrArg (fun frames => { s with frames }) hframes

theorem newFrame_without (s : Store) (outer : FrameId) {params : List Symbol} (args : List Value)
    (h : ∀ y ∈ params, y ≠ x) :
    (s.without x).newFrame (.ofArgs outer params args) =
      (s.frames.size, (s.newFrame (.ofArgs outer params args)).2.without x) := by
  simp [newFrame, without, Frame.without_ofArgs outer args h]

end Store

/-- Programs do not mention `x`, and the view leaves its bindings out. -/
def unmentioned (x : Symbol) : Discipline where
  Allowed y := y ≠ x
  Inv _ := True
  Next _ _ := True
  Open _ _ := True
  Item _ _ := True
  view := Store.without x

theorem lawful_unmentioned (x : Symbol) : (unmentioned x).Lawful where
  next_refl _ := trivial
  next_trans _ _ := trivial
  open_next _ _ := trivial
  item_next _ _ := trivial
  item_inert _ := trivial
  lookup _ _ _ _ _ := trivial
  find _ _ _ := trivial
  define _ _ _ _ _ := ⟨trivial, trivial⟩
  nameClosure _ _ _ := ⟨trivial, trivial⟩
  newClosure _ _ _ := ⟨⟨trivial, trivial⟩, trivial⟩
  newFrame _ _ _ _ _ := ⟨⟨trivial, trivial⟩, trivial⟩
  emit _ _ := ⟨trivial, trivial⟩
  nextShared _ := ⟨trivial, trivial⟩
  view_lookup s env hy := congrArg (Option.map Prod.snd) (s.search_without hy env)
  view_find s env hy := congrArg (Option.map Prod.fst) (s.search_without hy env)
  view_define s env v hy := s.define_without hy env v
  view_newFrame s outer params args hparams := s.newFrame_without outer args hparams

/-! ## Sessions -/

namespace Session

def evalEach (s : Session) : List String → List (Except Error Value × Session)
  | [] => []
  | source :: rest => s.eval source :: (s.eval source).2.evalEach rest

/-- The text reads as expressions in which `x` occurs nowhere, or not at all. -/
def Unmentions (limit : Nat) (x : Symbol) (source : String) : Prop :=
  ∀ es, parse limit source.toList = .ok es → ∀ e ∈ es, ¬ (Value.sym x).Occurs e

/-- An answer, and all that the session keeps except for what `x` is bound to. -/
def seenWithout (x : Symbol) (r : Except Error Value × Session) : Except Error Value × Session :=
  (r.1, r.2.mapStore (Store.without x))

variable {x : Symbol} {s t : Session}

theorem eval_unmentioned (hs : (unmentioned x).Good s.store) {source : String}
    (hsource : Unmentions s.limit x source) :
    (unmentioned x).Good (s.eval source).2.store ∧
      seenWithout x (s.eval source) = (s.mapStore (Store.without x)).eval source := by
  have hcode : ∀ es, parse s.limit source.toList = .ok es → ∀ e ∈ es, e.Code (· ≠ x) := by
    intro es hes e he
    refine (code_of_parse hes e he).restrict ?_
    rintro y hy rfl
    exact hsource es hes e he hy
  obtain ⟨hanswered, hview⟩ := (lawful_unmentioned x).eval hs source trivial hcode
  exact ⟨hanswered.good, hview.symm⟩

theorem evalEach_unmentioned {sources : List String}
    (hsources : ∀ source ∈ sources, Unmentions s.limit x source)
    (hs : (unmentioned x).Good s.store) (ht : (unmentioned x).Good t.store)
    (h : s.mapStore (Store.without x) = t.mapStore (Store.without x)) :
    (s.evalEach sources).map (seenWithout x) = (t.evalEach sources).map (seenWithout x) := by
  induction sources generalizing s t with
  | nil => rfl
  | cons source rest ih =>
    obtain ⟨hsource, hrest⟩ := List.forall_mem_cons.1 hsources
    have hlimit : s.limit = t.limit := by
      change (s.mapStore (Store.without x)).limit = (t.mapStore (Store.without x)).limit
      rw [h]
    obtain ⟨hs', hseen⟩ := eval_unmentioned hs hsource
    obtain ⟨ht', hseen'⟩ := eval_unmentioned ht (hlimit ▸ hsource)
    -- Seen without `x` both sessions are the same one, before the text and so after it.
    have heq : seenWithout x (s.eval source) = seenWithout x (t.eval source) := by
      rw [hseen, hseen', h]
    have hnext := ih (by rw [limit_eval]; exact hrest) hs' ht' (congrArg Prod.snd heq)
    simp only [evalEach, List.map_cons, heq, hnext]

/-- **Names that are not mentioned do not matter.** -/
theorem evalEach_congr (limit : Nat) (shared : Nat → Sharing) (x : Symbol)
    (sources : List String) (hsources : ∀ source ∈ sources, Unmentions limit x source)
    (other : Session) (hlimit : other.limit = limit)
    (hother : other.store.without x = (start limit shared).store.without x) :
    (other.evalEach sources).map (seenWithout x) =
      ((start limit shared).evalEach sources).map (seenWithout x) := by
  have hclosures : other.store.closures = #[] := congrArg Store.closures hother
  have hgood {s : Session} (hs : s.store.closures = #[]) : (unmentioned x).Good s.store :=
    ⟨fun c k hk => by simp [hs] at hk, trivial⟩
  refine evalEach_unmentioned (hlimit ▸ hsources) (hgood hclosures) (hgood rfl) ?_
  unfold mapStore
  rw [hother, hlimit]
  rfl

def car : Symbol := ⟨"car", by decide⟩

theorem evalEach_congr_car :
    Unmentions 100 car "(* 2 4)" ∧
      (((fresh 100).mapStore (Store.without car)).evalEach ["(* 2 4)"]).map (seenWithout car) =
        ((fresh 100).evalEach ["(* 2 4)"]).map (seenWithout car) ∧
      (((fresh 100).mapStore (·.define globalFrame car (.bool true))).evalEach ["(* 2 4)"]).map
          (seenWithout car) =
        ((fresh 100).evalEach ["(* 2 4)"]).map (seenWithout car) := by
  have hparse : parse 100 "(* 2 4)".toList =
      .ok [.list [.sym ⟨"*", by decide⟩, .num (.int 2), .num (.int 4)]] := by rfl
  have hunmentioned : Unmentions 100 car "(* 2 4)" := by
    intro es hes e he hoccurs
    cases hparse.symm.trans hes
    obtain rfl := List.mem_singleton.1 he
    obtain h | ⟨w, hw, hin⟩ := Value.occurs_list_iff.1 hoccurs
    · cases h
    · simp only [List.mem_cons, List.not_mem_nil, or_false] at hw
      obtain rfl | rfl | rfl := hw
      · have hname := Value.sym.inj (hin.eq_of_list?_eq_none rfl)
        exact absurd hname (by decide)
      · cases hin
      · cases hin
  have hsources : ∀ source ∈ ["(* 2 4)"], Unmentions 100 car source := by simpa using hunmentioned
  exact ⟨hunmentioned, evalEach_congr 100 _ car _ hsources _ rfl (Store.without_without _),
    evalEach_congr 100 _ car _ hsources _ rfl (Store.without_define_same _ globalFrame _)⟩

end Session

end Scheme
