import Scheme.Primitive.Numeric
import Scheme.Value.Equal

/-!
# What room is for

Room decides only whether there is a result, never which.
-/

namespace Scheme

/-- With more room the result is the same, unless it was that the room did not do. -/
def Limited {α : Type} (f : Nat → Except Error α) : Prop :=
  ∀ room room', room ≤ room' → f room = .error .depthExceeded ∨ f room' = f room

theorem limited_const {α : Type} (r : Except Error α) : Limited fun _ => r :=
  fun _ _ _ => Or.inr rfl

theorem Limited.bind {α β : Type} {f : Nat → Except Error α} {g : Nat → α → Except Error β}
    (hf : Limited f) (hg : ∀ a, Limited (g · a)) : Limited fun room => f room >>= g room := by
  intro room room' h
  rcases hf room room' h with hexceeded | hsame
  · simp only [hexceeded]
    exact Or.inl rfl
  · simp only [hsame]
    cases f room with
    | ok a => exact hg a room room' h
    | error e => exact Or.inr rfl

theorem Limited.comp_mul {α : Type} {f : Nat → Except Error α} (hf : Limited f) (n : Nat) :
    Limited fun room => f (n * room) :=
  fun room room' h => hf (n * room) (n * room') (Nat.mul_le_mul_left n h)

theorem Limited.below {α : Type} {f : Nat → Except Error α} (hf : Limited f) :
    Limited fun room => match room with
      | 0 => .error .depthExceeded
      | room + 1 => f room := by
  intro room room' h
  match room, room' with
  | 0, _ => exact Or.inl rfl
  | room + 1, room' + 1 => exact hf room room' (Nat.le_of_succ_le_succ h)

namespace Value

theorem limited_visit (v : Value) : Limited fun room => v.visit room := by
  intro room room' h
  simp only [visit_eq]
  by_cases hv : v.nesting ≤ room
  · simp [hv, Nat.le_trans hv h]
  · simp [hv]

mutual

theorem limited_isEqual (one : Sharing) (place : List Nat) (a b : Value) :
    Limited fun room => a.isEqual one room place b := by
  by_cases hone : (one place && a == b) = true
  · simp only [isEqual.eq_def, hone, if_true]
    exact limited_const _
  · simp only [isEqual.eq_def, if_neg hone]
    cases a with
    | list as =>
      cases b with
      | list bs =>
        by_cases hlength : as.length = bs.length
        · simp only [if_pos hlength]
          exact (limited_areEqual one place 0 as bs).below
        · simp only [if_neg hlength]
          exact limited_const _
      | _ => exact limited_const _
    | _ => exact limited_const _

theorem limited_areEqual (one : Sharing) (place : List Nat) (position : Nat)
    (as bs : List Value) : Limited fun room => areEqual one room place position as bs := by
  cases as with
  | nil => exact limited_const _
  | cons a as =>
    cases bs with
    | nil => exact limited_const _
    | cons b bs =>
      simp only [areEqual]
      refine (limited_isEqual one (position :: place) a b).bind fun r => ?_
      cases r with
      | false => exact limited_const _
      | true => exact limited_areEqual one place (position + 1) as bs

end

/-! Two values are told apart where either of them ends, so room for one of them will do. -/

mutual

theorem isEqual_cases (one : Sharing) (room : Nat) (place : List Nat) (a b : Value) :
    (∃ r, a.isEqual one room place b = .ok r) ∨
      a.isEqual one room place b = .error .depthExceeded ∧ room < a.nesting ∧ room < b.nesting := by
  rw [isEqual.eq_def]
  split
  · exact Or.inl ⟨_, rfl⟩
  · split
    · rename_i as bs _
      split
      · cases room with
        | zero => exact Or.inr ⟨rfl, Nat.succ_pos _, Nat.succ_pos _⟩
        | succ room =>
          refine (areEqual_cases one room place 0 as bs).imp_right ?_
          rintro ⟨hexceeded, ha, hb⟩
          exact ⟨hexceeded, Nat.succ_lt_succ ha, Nat.succ_lt_succ hb⟩
      · exact Or.inl ⟨_, rfl⟩
    · exact Or.inl ⟨_, rfl⟩

theorem areEqual_cases (one : Sharing) (room : Nat) (place : List Nat) (position : Nat)
    (as bs : List Value) :
    (∃ r, areEqual one room place position as bs = .ok r) ∨
      areEqual one room place position as bs = .error .depthExceeded ∧
        room < nestingAll as ∧ room < nestingAll bs := by
  cases as with
  | nil => exact Or.inl ⟨true, by simp [areEqual]⟩
  | cons a as =>
    cases bs with
    | nil => exact Or.inl ⟨true, by simp [areEqual]⟩
    | cons b bs =>
      rw [areEqual]
      rcases isEqual_cases one room (position :: place) a b with ⟨r, hr⟩ | ⟨hexceeded, ha, hb⟩
      · rw [hr]
        cases r with
        | false => exact Or.inl ⟨false, rfl⟩
        | true =>
          refine (areEqual_cases one room place (position + 1) as bs).imp_right ?_
          rintro ⟨hexceeded, ha, hb⟩
          exact ⟨hexceeded, Nat.lt_of_lt_of_le ha (Nat.le_max_right _ _),
            Nat.lt_of_lt_of_le hb (Nat.le_max_right _ _)⟩
      · rw [hexceeded]
        exact Or.inr ⟨rfl, Nat.lt_of_lt_of_le ha (Nat.le_max_left _ _),
          Nat.lt_of_lt_of_le hb (Nat.le_max_left _ _)⟩

end

end Value

namespace Primitive

theorem limited_numbers (describe : ClosureId → String) (name : String) (vs : List Value) :
    Limited fun room => numbers describe room name vs := by
  induction vs with
  | nil => exact limited_const _
  | cons v vs ih =>
    simp only [numbers]
    cases v.number? with
    | some n => exact ih.bind fun ns => limited_const (.ok (n :: ns))
    | none => exact v.limited_visit.bind fun _ => limited_const _

theorem limited_callNumeric (describe : ClosureId → String) (p : Primitive) (args : List Value) :
    Limited fun room => p.callNumeric describe room args :=
  (limited_const _).bind fun _ => (limited_numbers describe _ args).bind fun _ => limited_const _

end Primitive

end Scheme
