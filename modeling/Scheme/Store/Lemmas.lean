import Scheme.Store

/-!
# What the operations of the store change

What the operations leave alone, and what they put where.
-/

namespace Scheme

/-! ## Frames -/

namespace Frame

theorem names_put (x : Symbol) (v : Value) (bindings : List (Symbol × Value)) :
    (put x v bindings).map Prod.fst =
      if x ∈ bindings.map Prod.fst then bindings.map Prod.fst
      else bindings.map Prod.fst ++ [x] := by
  induction bindings with
  | nil => simp [put]
  | cons b rest ih =>
    obtain ⟨y, w⟩ := b
    by_cases h : y = x
    · simp [put, h]
    · have : ¬ x = y := fun e => h e.symm
      simp only [put, if_neg h, List.map_cons, ih, List.mem_cons, this, false_or]
      split <;> rfl

theorem names_define (f : Frame) (x : Symbol) (v : Value) :
    (f.define x v).names = if x ∈ f.names then f.names else f.names ++ [x] :=
  names_put x v f.bindings

theorem outer_define (f : Frame) (x : Symbol) (v : Value) : (f.define x v).outer = f.outer :=
  rfl

theorem value?_define (f : Frame) (x y : Symbol) (v : Value) :
    (f.define x v).value? y = if y = x then some v else f.value? y := by
  obtain ⟨outer, bindings⟩ := f
  simp only [define, value?]
  induction bindings with
  | nil =>
    by_cases h : y = x
    · simp [put, h]
    · simp [put, h, Ne.symm h]
  | cons b rest ih =>
    obtain ⟨z, w⟩ := b
    by_cases hz : z = x
    · subst hz
      by_cases h : y = z
      · simp [put, h]
      · simp [put, h, Ne.symm h]
    · by_cases h : z = y
      · subst h
        simp [put, hz]
      · simp only [put, if_neg hz, List.find?_cons, beq_eq_false_iff_ne.2 h]
        exact ih

theorem isSome_value?_iff {f : Frame} {x : Symbol} : (f.value? x).isSome ↔ x ∈ f.names := by
  simp [value?, names, List.find?_isSome]

theorem put_of_notMem {x : Symbol} {bindings : List (Symbol × Value)}
    (h : x ∉ bindings.map Prod.fst) (v : Value) : put x v bindings = bindings ++ [(x, v)] := by
  induction bindings with
  | nil => rfl
  | cons b rest ih =>
    obtain ⟨y, w⟩ := b
    simp only [List.map_cons, List.mem_cons, not_or] at h
    rw [put, if_neg (Ne.symm h.1), ih h.2]
    rfl

theorem foldl_define_bindings (pairs : List (Symbol × Value)) (f : Frame)
    (h : (f.names ++ pairs.map Prod.fst).Nodup) :
    (pairs.foldl (fun f b => f.define b.1 b.2) f).bindings = f.bindings ++ pairs := by
  induction pairs generalizing f with
  | nil => simp
  | cons b pairs ih =>
    have hb : b.1 ∉ f.names := by
      intro hmem
      exact (List.nodup_append.1 h).2.2 b.1 hmem b.1 (by simp) rfl
    have hbindings : (f.define b.1 b.2).bindings = f.bindings ++ [b] := put_of_notMem hb b.2
    have hnames : (f.define b.1 b.2).names = f.names ++ [b.1] := by
      rw [names_define, if_neg hb]
    rw [List.foldl_cons, ih, hbindings, List.append_assoc, List.singleton_append]
    rw [hnames, List.append_assoc, List.singleton_append]
    exact h

theorem bindings_ofArgs (outer : FrameId) {params : List Symbol} {args : List Value}
    (h : params.Nodup) (hcount : params.length = args.length) :
    (ofArgs outer params args).bindings = params.zip args := by
  refine foldl_define_bindings (params.zip args) { outer := some outer } ?_
  rw [List.map_fst_zip (Nat.le_of_eq hcount)]
  simpa [names] using h

theorem outer_ofArgs (outer : FrameId) (params : List Symbol) (args : List Value) :
    (ofArgs outer params args).outer = some outer := by
  unfold ofArgs
  generalize hf : ({ outer := some outer } : Frame) = f
  have houter : f.outer = some outer := by rw [← hf]
  clear hf
  induction params.zip args generalizing f with
  | nil => exact houter
  | cons b pairs ih => exact ih (f.define b.1 b.2) houter

/-! ## What is bound in a frame -/

theorem mem_put {b : Symbol × Value} {x : Symbol} {v : Value} {bindings : List (Symbol × Value)}
    (h : b ∈ put x v bindings) : b = (x, v) ∨ b ∈ bindings := by
  induction bindings with
  | nil => exact Or.inl (List.mem_singleton.1 h)
  | cons c rest ih =>
    obtain ⟨y, w⟩ := c
    rw [put] at h
    split at h
    · exact (List.mem_cons.1 h).imp_right (List.mem_cons_of_mem _)
    · obtain rfl | h := List.mem_cons.1 h
      · exact Or.inr List.mem_cons_self
      · exact (ih h).imp_right (List.mem_cons_of_mem _)

theorem mem_foldl_define {b : Symbol × Value} {pairs : List (Symbol × Value)} {f : Frame}
    (h : b ∈ (pairs.foldl (fun f b => f.define b.1 b.2) f).bindings) :
    b ∈ f.bindings ∨ b ∈ pairs := by
  induction pairs generalizing f with
  | nil => exact Or.inl h
  | cons c pairs ih =>
    obtain h | h := ih h
    · obtain rfl | h := mem_put h
      · exact Or.inr List.mem_cons_self
      · exact Or.inl h
    · exact Or.inr (List.mem_cons_of_mem c h)

theorem mem_ofArgs {outer : FrameId} {params : List Symbol} {args : List Value}
    {b : Symbol × Value} (h : b ∈ (ofArgs outer params args).bindings) : b ∈ params.zip args :=
  (mem_foldl_define h).resolve_left List.not_mem_nil

def values (f : Frame) : List Value := f.bindings.map Prod.snd

theorem mem_values_define {f : Frame} {x : Symbol} {v w : Value}
    (h : w ∈ (f.define x v).values) : w = v ∨ w ∈ f.values := by
  obtain ⟨b, hb, rfl⟩ := List.mem_map.1 h
  exact (mem_put hb).imp (congrArg Prod.snd) List.mem_map_of_mem

theorem mem_values_ofArgs {outer : FrameId} {params : List Symbol} {args : List Value} {w : Value}
    (h : w ∈ (ofArgs outer params args).values) : w ∈ args := by
  obtain ⟨b, hb, rfl⟩ := List.mem_map.1 h
  exact (List.of_mem_zip (mem_ofArgs hb)).2

theorem mem_values_of_value? {f : Frame} {x : Symbol} {v : Value} (h : f.value? x = some v) :
    v ∈ f.values := by
  obtain ⟨b, hb, rfl⟩ := Option.map_eq_some_iff.1 h
  exact List.mem_map_of_mem (List.mem_of_find?_eq_some hb)

end Frame

/-! ## The store -/

namespace Store

theorem frames_define (s : Store) (env i : FrameId) (x : Symbol) (v : Value) :
    (s.define env x v).frames[i]? =
      if env = i then s.frames[i]?.map (·.define x v) else s.frames[i]? := by
  simp [define, Array.getElem?_modify]

theorem frames_newFrame (s : Store) (f : Frame) {i : FrameId} (h : i < s.frames.size) :
    (s.newFrame f).2.frames[i]? = s.frames[i]? := by
  simp [newFrame, Array.getElem?_push, Nat.ne_of_lt h]

theorem frame_newFrame (s : Store) (f : Frame) :
    (s.newFrame f).2.frames[(s.newFrame f).1]? = some f := by
  simp [newFrame]

theorem closures_newClosure (s : Store) (c : Closure) {i : ClosureId} (h : i < s.closures.size) :
    (s.newClosure c).2.closures[i]? = s.closures[i]? := by
  simp [newClosure, Array.getElem?_push, Nat.ne_of_lt h]

theorem closure_newClosure (s : Store) (c : Closure) :
    (s.newClosure c).2.closures[(s.newClosure c).1]? = some c := by
  simp [newClosure]

theorem frame_of_define {s : Store} {env i : FrameId} {x : Symbol} {v : Value} {f : Frame}
    (h : (s.define env x v).frames[i]? = some f) :
    s.frames[i]? = some f ∨ i = env ∧ ∃ f', s.frames[i]? = some f' ∧ f = f'.define x v := by
  rw [frames_define] at h
  split at h
  · rename_i hi
    obtain ⟨f', hf', rfl⟩ := Option.map_eq_some_iff.1 h
    exact Or.inr ⟨hi.symm, f', hf', rfl⟩
  · exact Or.inl h

theorem frame_of_newFrame {s : Store} {g f : Frame} {i : FrameId}
    (h : (s.newFrame g).2.frames[i]? = some f) :
    s.frames[i]? = some f ∨ i = s.frames.size ∧ f = g := by
  rw [newFrame, Array.getElem?_push] at h
  split at h
  · rename_i hi
    exact Or.inr ⟨hi, (Option.some.inj h).symm⟩
  · exact Or.inl h

theorem closure_of_newClosure {s : Store} {c : Closure} {i : ClosureId} {k : Closure}
    (h : (s.newClosure c).2.closures[i]? = some k) :
    s.closures[i]? = some k ∨ i = s.closures.size ∧ k = c := by
  rw [newClosure, Array.getElem?_push] at h
  split at h
  · rename_i hi
    exact Or.inr ⟨hi, (Option.some.inj h).symm⟩
  · exact Or.inl h

theorem closures_nameClosure (s : Store) (c i : ClosureId) (x : Symbol) :
    (s.nameClosure c x).closures[i]? =
      if c = i then s.closures[i]?.map fun k => { k with name := k.name.or (some x) }
      else s.closures[i]? := by
  simp [nameClosure, Array.getElem?_modify]

/-- At most the name of a closure changes. -/
theorem closure_of_nameClosure {s : Store} {c i : ClosureId} {x : Symbol} {k : Closure}
    (h : (s.nameClosure c x).closures[i]? = some k) :
    ∃ k', s.closures[i]? = some k' ∧ k.params = k'.params ∧ k.body = k'.body ∧ k.env = k'.env := by
  rw [closures_nameClosure] at h
  split at h
  · obtain ⟨k', hk', rfl⟩ := Option.map_eq_some_iff.1 h
    exact ⟨k', hk', rfl, rfl, rfl⟩
  · exact ⟨k, h, rfl, rfl, rfl⟩

theorem nameClosure_newClosure (s : Store) (k : Closure) (x : Symbol) :
    (s.newClosure k).2.nameClosure s.closures.size x =
      (s.newClosure { k with name := k.name.or (some x) }).2 := by
  simp only [nameClosure, newClosure, Store.mk.injEq, true_and, and_true]
  refine Array.ext_getElem? fun i => ?_
  simp only [Array.getElem?_modify, Array.getElem?_push]
  by_cases hi : i = s.closures.size
  · simp [hi]
  · simp [hi, Ne.symm hi]

end Store

end Scheme
