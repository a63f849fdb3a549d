import Scheme.Proofs.Trace
import Scheme.Store.Named

/-!
# Variables in a forest of frames

A change of a frame is found from every frame that sees it, and from no other.
-/

namespace Scheme

namespace Store

/-- Frames that are made one after the other, each in no frame or in one that is there, and whose
variables are defined and assigned. -/
inductive Forest : Store → Prop where
  | empty {s : Store} (none_made : s.frames = #[]) : Forest s
  | new {s : Store} (forest : Forest s) (outer : Option FrameId)
      (made : ∀ o ∈ outer, o < s.frames.size) : Forest (s.newFrame { outer }).2
  | define {s : Store} (forest : Forest s) (f : FrameId) (x : Symbol) (v : Value) :
      Forest (s.define f x v)
  | assign {s t : Store} (forest : Forest s) (f : FrameId) (x : Symbol) (v : Value)
      (assigned : s.assign? x v f = some t) : Forest t
  | update {s : Store} (forest : Forest s) (f : FrameId) (pairs : List (Value × Value)) :
      Forest (s.defineAllNamed f pairs).2

/-- Outer links lead to older frames. -/
def Older (s : Store) : Prop :=
  ∀ (i o : FrameId) (fr : Frame), s.frames[i]? = some fr → fr.outer = some o → o < i

/-- From `g` outward one comes to `f`, past these frames. -/
inductive Path (s : Store) (f : FrameId) : FrameId → List Frame → Prop where
  | here : Path s f f []
  | outward {g o : FrameId} {fr : Frame} {passed : List Frame} (there : s.frames[g]? = some fr)
      (outer : fr.outer = some o) (rest : Path s f o passed) : Path s f g (fr :: passed)

/-- From `g` outward one comes to `f`, and no frame that is passed binds the variable. -/
def Sees (s : Store) (x : Symbol) (g f : FrameId) : Prop :=
  ∃ passed, s.Path f g passed ∧ ∀ fr ∈ passed, x ∉ fr.names

variable {s : Store} {x y : Symbol} {f g o : FrameId} {fr : Frame}

/-! ## Forests -/

theorem Older.define (h : s.Older) (f : FrameId) (x : Symbol) (v : Value) :
    (s.define f x v).Older := by
  intro i o fr hfr houter
  obtain hfr | ⟨-, fr', hfr', rfl⟩ := frame_of_define hfr
  · exact h i o fr hfr houter
  · exact h i o fr' hfr' houter

theorem Older.defineAllNamed (h : s.Older) (f : FrameId) (pairs : List (Value × Value)) :
    (s.defineAllNamed f pairs).2.Older := by
  induction pairs generalizing s with
  | nil => exact h
  | cons pair pairs ih =>
    obtain ⟨name, v⟩ := pair
    unfold Store.defineAllNamed
    cases name with
    | sym x => exact ih (h.define f x v)
    | _ => exact h

theorem Forest.older (h : s.Forest) : s.Older := by
  induction h with
  | empty none_made =>
    intro i o fr hfr
    simp [none_made] at hfr
  | new _ outer made ih =>
    intro i o fr hfr houter
    obtain hfr | ⟨rfl, rfl⟩ := frame_of_newFrame hfr
    · exact ih i o fr hfr houter
    · exact made o houter
  | define _ f x v ih => exact ih.define f x v
  | assign _ f x v assigned ih =>
    obtain ⟨i, -, rfl⟩ := Option.map_eq_some_iff.1 assigned
    exact ih.define i x v
  | update _ f pairs ih => exact ih.defineAllNamed f pairs

/-! ## Searches -/

theorem value?_eq_none_iff : fr.value? x = none ↔ x ∉ fr.names := by
  rw [← Frame.isSome_value?_iff, Option.not_isSome_iff_eq_none]

theorem search_of_none (hg : s.frames[g]? = none) : s.search x g = none := by
  rw [search, hg]

theorem Older.search_eq (h : s.Older) (hg : s.frames[g]? = some fr) :
    s.search x g =
      match fr.value? x with
      | some v => some (g, v)
      | none => fr.outer.bind (s.search x) := by
  rw [search, hg]
  simp only
  cases fr.value? x with
  | some v => rfl
  | none =>
    cases houter : fr.outer with
    | none => rfl
    | some o => simp only [if_pos (h g o fr hg houter), Option.bind_some]

theorem sees_here (s : Store) (x : Symbol) (f : FrameId) : s.Sees x f f :=
  ⟨[], .here, by simp⟩

theorem Sees.outward (hg : s.frames[g]? = some fr) (hx : x ∉ fr.names) (houter : fr.outer = some o)
    (h : s.Sees x o f) : s.Sees x g f := by
  obtain ⟨passed, hpath, hpassed⟩ := h
  exact ⟨fr :: passed, .outward hg houter hpath, by simpa [hx] using hpassed⟩

theorem sees_of_find (h : s.find x g = some f) : s.Sees x g f := by
  obtain ⟨⟨i, v⟩, hsearch, rfl⟩ := Option.map_eq_some_iff.1 h
  clear h
  fun_induction search s x g with
  | case1 => simp at hsearch
  | case2 g fr hg w hw =>
    obtain ⟨rfl, rfl⟩ := hsearch
    exact sees_here s x _
  | case3 => simp at hsearch
  | case4 g fr hg hw outer houter hlt ih =>
    exact (ih hsearch).outward hg (value?_eq_none_iff.1 hw) houter
  | case5 => simp at hsearch

theorem Older.find_of_sees (hs : s.Older) (hf : s.frames[f]? = some fr) (hx : x ∈ fr.names)
    (h : s.Sees x g f) : s.find x g = some f := by
  obtain ⟨passed, hpath, hpassed⟩ := h
  unfold find
  induction hpath with
  | here =>
    rw [hs.search_eq hf]
    obtain ⟨v, hv⟩ := Option.isSome_iff_exists.1 (Frame.isSome_value?_iff.2 hx)
    rw [hv]
    rfl
  | outward there outer rest ih =>
    simp only [List.mem_cons, forall_eq_or_imp] at hpassed
    rw [hs.search_eq there, value?_eq_none_iff.2 hpassed.1, outer]
    exact ih hpassed.2

/-! ## Definitions -/

theorem Older.search_define_of_sees (hs : s.Older) (hf : f < s.frames.size) (v : Value)
    (h : s.Sees x g f) : (s.define f x v).search x g = some (f, v) := by
  have hs' := hs.define f x v
  obtain ⟨passed, hpath, hpassed⟩ := h
  have hfound : (s.define f x v).search x f = some (f, v) := by
    have hframe : (s.define f x v).frames[f]? = some (s.frames[f].define x v) := by
      rw [frames_define, if_pos rfl, Array.getElem?_eq_getElem hf]
      rfl
    rw [hs'.search_eq hframe, Frame.value?_define, if_pos rfl]
  induction hpath with
  | here => exact hfound
  | @outward g o fr passed there outer rest ih =>
    by_cases hgf : f = g
    · exact hgf ▸ hfound
    · simp only [List.mem_cons, forall_eq_or_imp] at hpassed
      have hframe : (s.define f x v).frames[g]? = some fr := by
        rw [frames_define, if_neg hgf, there]
      rw [hs'.search_eq hframe, value?_eq_none_iff.2 hpassed.1, outer]
      exact ih hpassed.2

theorem Older.search_define_of_not_sees (hs : s.Older) (v : Value)
    (h : ¬ (y = x ∧ s.Sees x g f)) : (s.define f x v).search y g = s.search y g := by
  have hs' := hs.define f x v
  induction g using Nat.strongRecOn with
  | ind g ih =>
    cases hg : s.frames[g]? with
    | none =>
      have hframe : (s.define f x v).frames[g]? = none := by simp [frames_define, hg]
      rw [search_of_none hg, search_of_none hframe]
    | some fr =>
      -- If this is the frame of the definition, then it is another variable that is looked for.
      have hframe : ∃ fr', (s.define f x v).frames[g]? = some fr' ∧ fr'.outer = fr.outer ∧
          fr'.value? y = fr.value? y := by
        by_cases hfg : f = g
        · subst hfg
          have hy : y ≠ x := fun hyx => h ⟨hyx, sees_here s x f⟩
          have hframe : (s.define f x v).frames[f]? = some (fr.define x v) := by
            rw [frames_define, if_pos rfl, hg]
            rfl
          refine ⟨fr.define x v, hframe, fr.outer_define x v, ?_⟩
          rw [Frame.value?_define, if_neg hy]
        · exact ⟨fr, by rw [frames_define, if_neg hfg, hg], rfl, rfl⟩
      obtain ⟨fr', hframe, houter', hvalue⟩ := hframe
      rw [hs'.search_eq hframe, hs.search_eq hg, houter', hvalue]
      cases hv : fr.value? y with
      | some w => rfl
      | none =>
        cases houter : fr.outer with
        | none => rfl
        | some o =>
          refine ih o (hs g o fr hg houter) fun ⟨hyx, hsees⟩ => h ⟨hyx, ?_⟩
          exact hsees.outward hg (value?_eq_none_iff.1 (hyx ▸ hv)) houter

/-! ## Assignments -/

theorem Older.find_eq_some_iff (hs : s.Older) (hf : s.frames[f]? = some fr) (hx : x ∈ fr.names) :
    s.find x g = some f ↔ s.Sees x g f :=
  ⟨sees_of_find, hs.find_of_sees hf hx⟩

theorem Older.search_assign (hs : s.Older) (hfind : s.find x g = some f) (v : Value)
    (y : Symbol) (i : FrameId) :
    (s.define f x v).search y i =
      if y = x ∧ s.find x i = some f then some (f, v) else s.search y i := by
  obtain ⟨fr, hf, hx⟩ := find_bound hfind
  have hsees : s.find x i = some f ↔ s.Sees x i f := hs.find_eq_some_iff hf hx
  by_cases hi : y = x ∧ s.find x i = some f
  · rw [if_pos hi, hi.1]
    exact hs.search_define_of_sees (Array.getElem?_eq_some_iff.1 hf).1 v (hsees.1 hi.2)
  · rw [if_neg hi]
    exact hs.search_define_of_not_sees v (by rwa [hsees] at hi)

theorem Older.find_assign (hs : s.Older) (hfind : s.find x g = some f) (v : Value) (y : Symbol)
    (i : FrameId) : (s.define f x v).find y i = s.find y i := by
  unfold find
  rw [hs.search_assign hfind]
  split
  · rename_i hi
    rw [hi.1]
    exact hi.2.symm
  · rfl

theorem Older.lookup_assign (hs : s.Older) (hfind : s.find x g = some f) (v : Value) (y : Symbol)
    (i : FrameId) :
    (s.define f x v).lookup y i =
      if y = x ∧ s.find x i = some f then some v else s.lookup y i := by
  unfold lookup
  rw [hs.search_assign hfind]
  split <;> rfl

theorem assign_of_none (h : s.find x f = none) (v : Value) :
    Eval.assign x v f s = .error (.unboundAssignment x.name) s := by
  unfold Eval.assign
  rw [Eval.get_bind_apply, h]
  rfl

theorem assign_of_some (h : s.find x f = some g) (v : Value) :
    Eval.assign x v f s = .ok () (s.define g x v) := by
  unfold Eval.assign
  rw [Eval.get_bind_apply, h]
  rfl

/-! ## The laws -/

/-- **The laws of variables.** -/
theorem Forest.laws (h : s.Forest) (hf : f < s.frames.size) (x : Symbol) (v : Value) :
    (∀ g y, y = x ∧ s.Sees x g f →
      (s.define f x v).find y g = some f ∧ (s.define f x v).lookup y g = some v) ∧
    (∀ g y, ¬ (y = x ∧ s.Sees x g f) →
      (s.define f x v).find y g = s.find y g ∧ (s.define f x v).lookup y g = s.lookup y g) ∧
    match s.find x f with
    | none => Eval.assign x v f s = .error (.unboundAssignment x.name) s
    | some b => ∃ t, Eval.assign x v f s = .ok () t ∧ ∀ g y, t.find y g = s.find y g ∧
        t.lookup y g = if y = x ∧ s.find x g = some b then some v else s.lookup y g := by
  have hs := h.older
  refine ⟨fun g y hsees => ?_, fun g y hsees => ?_, ?_⟩
  · obtain ⟨rfl, hsees⟩ := hsees
    unfold find lookup
    rw [hs.search_define_of_sees hf v hsees]
    exact ⟨rfl, rfl⟩
  · unfold find lookup
    rw [hs.search_define_of_not_sees v hsees]
    exact ⟨rfl, rfl⟩
  · cases hfind : s.find x f with
    | none => exact assign_of_none hfind v
    | some b =>
      refine ⟨s.define b x v, assign_of_some hfind v, fun g y => ⟨?_, ?_⟩⟩
      · exact hs.find_assign hfind v y g
      · exact hs.lookup_assign hfind v y g

theorem Forest.laws_shadowed :
    let x : Symbol := ⟨"x", by decide⟩
    let chain := (((({} : Store).newFrame {}).2.newFrame { outer := some 0 }).2.newFrame
      { outer := some 1 }).2
    let s := (chain.define 0 x (.bool true)).define 2 x (.bool false)
    s.Forest ∧ 1 < s.frames.size ∧ s.Sees x 1 1 ∧ ¬ s.Sees x 2 1 ∧
      (s.define 1 x .unspecified).find x 1 = some 1 ∧
      (s.define 1 x .unspecified).lookup x 2 = s.lookup x 2 := by
  intro x chain s
  have hforest : s.Forest :=
    ((((Forest.empty rfl).new none (by simp)).new (some 0) (by decide)).new (some 1)
      (by decide)).define 0 x (.bool true) |>.define 2 x (.bool false)
  have hsize : 1 < s.frames.size := by decide
  have hmiddle : s.Sees x 1 1 := sees_here s x 1
  have hinner : ¬ s.Sees x 2 1 := by
    rintro ⟨passed, hpath, hpassed⟩
    cases hpath with
    | outward there outer rest =>
      obtain rfl := Option.some.inj there
      exact hpassed _ List.mem_cons_self (by decide)
  obtain ⟨hseen, hother, -⟩ := hforest.laws hsize x .unspecified
  exact ⟨hforest, hsize, hmiddle, hinner, (hseen 1 x ⟨rfl, hmiddle⟩).1,
    (hother 2 x fun h => hinner h.2).2⟩

end Store

end Scheme
