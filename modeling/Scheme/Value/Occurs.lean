import Scheme.Value

/-!
# What stands in a value

What is found on the way down into a value stands in it.
-/

namespace Scheme.Value

/-- The value `v` is `w` or stands in it, at any depth. -/
inductive Occurs (v : Value) : Value → Prop where
  | here : Occurs v v
  | item {w : Value} {items : List Value} (mem : w ∈ items) (inside : Occurs v w) :
      Occurs v (.list items)

theorem Occurs.trans {u v w : Value} (h : u.Occurs v) (h' : v.Occurs w) : u.Occurs w := by
  induction h' with
  | here => exact h
  | item mem _ ih => exact .item mem ih

theorem Occurs.eq_of_list?_eq_none {u v : Value} (h : u.Occurs v) (hv : v.list? = none) :
    u = v := by
  cases h with
  | here => rfl
  | item => cases hv

theorem occurs_list_iff {u : Value} {items : List Value} :
    u.Occurs (.list items) ↔ u = .list items ∨ ∃ w ∈ items, u.Occurs w := by
  constructor
  · intro h
    rcases h with _ | ⟨mem, inside⟩
    · exact Or.inl rfl
    · exact Or.inr ⟨_, mem, inside⟩
  · rintro (rfl | ⟨w, mem, inside⟩)
    · exact .here
    · exact .item mem inside

/-- The value means the same whatever the store is: it is there, and it is no closure. -/
def isInert : Value → Bool
  | .absent => false
  | .closure _ => false
  | _ => true

end Scheme.Value
