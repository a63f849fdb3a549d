import Scheme.Primitive.Data
import Scheme.Proofs.Room
import Scheme.Value.Code
import Scheme.Value.Shown

/-!
# What primitives answer

Whatever is absent or a closure in the answer of a primitive stood in an argument.
-/

namespace Scheme

def ShowsCode (text : String) : Prop :=
  ∃ (describe : ClosureId → String) (e : Value), e.Code AnyName ∧ text = e.shown describe

/-- What a message about a malformed form shows. -/
def Error.shownForm? : Error → Option String
  | .defineTarget shown | .assignTarget shown | .parameterList shown | .malformedBinding shown
  | .malformedClause shown => some shown
  | _ => none

/-- What a program can be at fault for. It can neither name a symbol with nothing nor put what is
no expression where an expression is due. What a message about a form shows is an expression. -/
def Error.IsFault : Error → Prop
  | .invalidName _ | .notEvaluable _ | .notASymbol _ => False
  | .defineTarget shown | .assignTarget shown | .parameterList shown | .malformedBinding shown
  | .malformedClause shown => ShowsCode shown
  | _ => True

theorem Error.IsFault.showsCode {e : Error} (h : e.IsFault) :
    ∀ text ∈ e.shownForm?, ShowsCode text := by
  intro text htext
  cases e with
  | defineTarget | assignTarget | parameterList | malformedBinding | malformedClause =>
    cases htext
    exact h
  | _ => cases htext

theorem Error.IsFault.announced {e : Error} (h : e.IsFault) :
    (e.kind?.isSome ∨ e = .depthExceeded) ∧ ∀ shown, e ≠ .notEvaluable shown := by
  cases e with
  | invalidName => exact absurd h id
  | notEvaluable => exact absurd h id
  | depthExceeded => exact ⟨Or.inr rfl, by simp⟩
  | _ => exact ⟨Or.inl rfl, by simp⟩

/-- Numbers that are in order have no result. -/
def Error.IsUndefined (e : Error) : Prop :=
  e.kind? = some .divisionByZero ∨ e.kind? = some .domain

theorem Error.IsUndefined.isFault {e : Error} (h : e.IsUndefined) : e.IsFault := by
  cases e with
  | divisionByZero | zeroToNegativePower | noResult => exact trivial
  | _ => rcases h with h | h <;> cases h

/-- The result has the property, or there is none by a fault of the program. -/
def FaultOr {α : Type} (Q : α → Prop) : Except Error α → Prop
  | .ok a => Q a
  | .error e => e.IsFault

namespace FaultOr

variable {α β : Type} {Q : α → Prop} {Q' : β → Prop} {r : Except Error α}

theorem bind {f : α → Except Error β} (h : FaultOr Q r) (hf : ∀ a, Q a → FaultOr Q' (f a)) :
    FaultOr Q' (r >>= f) := by
  cases r with
  | ok a => exact hf a h
  | error e => exact h

theorem imp {P : α → Prop} (h : FaultOr Q r) (hp : ∀ a, Q a → P a) : FaultOr P r := by
  cases r with
  | ok a => exact hp a h
  | error e => exact h

theorem map {f : α → β} (h : FaultOr Q r) (hf : ∀ a, Q a → Q' (f a)) : FaultOr Q' (r.map f) := by
  cases r with
  | ok a => exact hf a h
  | error e => exact h

theorem of_error (h : ∀ e, r = .error e → e.IsFault) : FaultOr (fun _ => True) r := by
  cases r with
  | ok a => exact trivial
  | error e => exact h e rfl

end FaultOr

namespace Value

theorem visit_faultOr (room : Nat) (v : Value) : FaultOr (fun _ => True) (v.visit room) := by
  rw [visit_eq]
  split <;> exact trivial

theorem isEqual_faultOr (one : Sharing) (room : Nat) (place : List Nat) (a b : Value) :
    FaultOr (fun _ => True) (a.isEqual one room place b) := by
  rcases isEqual_cases one room place a b with ⟨r, hr⟩ | ⟨hexceeded, -⟩
  · rw [hr]
    exact trivial
  · rw [hexceeded]
    exact trivial

end Value

namespace Primitive

theorem arityError_isFault (p : Primitive) (given : Nat) : (p.arityError given).IsFault := by
  unfold arityError
  split <;> exact trivial

/-! ## Numbers -/

theorem checkArity_faultOr (p : Primitive) (given : Nat) :
    FaultOr (fun _ => True) (p.checkArity given) := by
  unfold checkArity
  split
  · exact trivial
  · exact arityError_isFault p given

theorem numbers_faultOr (describe : ClosureId → String) (room : Nat) (name : String)
    (args : List Value) : FaultOr (fun _ => True) (numbers describe room name args) := by
  induction args with
  | nil => exact trivial
  | cons v vs ih =>
    unfold numbers
    split
    · exact ih.map fun _ _ => trivial
    · exact (v.visit_faultOr room).bind fun _ _ => trivial

theorem foldlM_error {α β : Type} {E : Error → Prop} {f : α → β → Except Error α}
    (h : ∀ a b e, f a b = .error e → E e) {bs : List β} {a : α} {e : Error}
    (he : bs.foldlM f a = .error e) : E e := by
  induction bs generalizing a with
  | nil => cases he
  | cons b bs ih =>
    rw [List.foldlM_cons] at he
    cases hfirst : f a b with
    | error e' =>
      rw [hfirst] at he
      cases he
      exact h a b _ hfirst
    | ok a' =>
      rw [hfirst] at he
      exact ih he

theorem orTooLarge_error {name : String} {result : Option Number} {e : Error}
    (h : orTooLarge name result = .error e) : e.IsUndefined := by
  cases result with
  | some n => cases h
  | none =>
    cases h
    exact Or.inr rfl

theorem accumulate_error {name : String} {op : Number → Number → Option Number} {first : Number}
    {rest : List Number} {e : Error} (h : accumulate name op first rest = .error e) :
    e.IsUndefined :=
  foldlM_error (fun _ _ _ => orTooLarge_error) h

theorem divide_error {a b : Number} {e : Error} (h : divide a b = .error e) : e.IsUndefined := by
  unfold divide at h
  split at h
  · cases h
    exact Or.inl rfl
  · exact orTooLarge_error h

theorem power_error {base exponent : Number} {e : Error} (h : power base exponent = .error e) :
    e.IsUndefined := by
  unfold power at h
  simp only at h
  repeat' split at h
  all_goals cases h
  all_goals first | exact Or.inl rfl | exact Or.inr rfl

def IsScalar (v : Value) : Prop := (∃ n, v = .num n) ∨ ∃ b, v = .bool b

theorem compute_faultOr (p : Primitive) (ns : List Number) : FaultOr IsScalar (p.compute ns) := by
  have hnum {r : Except Error Number} (h : ∀ e, r = .error e → e.IsUndefined) :
      FaultOr IsScalar (Value.num <$> r) :=
    (FaultOr.of_error fun e he => (h e he).isFault).map fun n _ => Or.inl ⟨n, rfl⟩
  unfold compute
  split
  · exact hnum fun _ => accumulate_error
  · exact Or.inl ⟨_, rfl⟩
  · exact hnum fun _ => accumulate_error
  · exact hnum fun _ => accumulate_error
  · exact hnum fun _ => divide_error
  · exact hnum fun _ => foldlM_error fun _ _ _ => divide_error
  · exact hnum fun _ => power_error
  · exact hnum fun _ => power_error
  · exact Or.inr ⟨_, rfl⟩
  · split
    · exact Or.inl ⟨_, rfl⟩
    · exact trivial
  · exact arityError_isFault _ _

theorem callNumeric_faultOr (describe : ClosureId → String) (room : Nat) (p : Primitive)
    (args : List Value) : FaultOr IsScalar (p.callNumeric describe room args) :=
  (checkArity_faultOr p args.length).bind fun _ _ =>
    (numbers_faultOr describe room p.reportedName args).bind fun ns _ => compute_faultOr p ns

/-! ## Data -/

theorem items_faultOr (describe : ClosureId → String) (p : Primitive) (v : Value) :
    FaultOr (fun items => v = .list items) (items describe p v) := by
  unfold items
  split
  · exact rfl
  · exact trivial

theorem concatenate_faultOr (describe : ClosureId → String) (args : List Value) :
    FaultOr (fun items => ∀ w ∈ items, ∃ a ∈ args, w.Occurs a) (concatenate describe args) := by
  induction args with
  | nil => exact fun w hw => absurd hw List.not_mem_nil
  | cons v vs ih =>
    refine (items_faultOr describe .append v).bind fun first hfirst => ih.bind fun rest hrest => ?_
    intro w hw
    rcases List.mem_append.1 hw with hw | hw
    · exact ⟨v, List.mem_cons_self, by rw [hfirst]; exact .item hw .here⟩
    · obtain ⟨a, ha, hwa⟩ := hrest w hw
      exact ⟨a, List.mem_cons_of_mem v ha, hwa⟩

/-- What stands in the answer stood in an argument, or it is inert. -/
def From (args : List Value) (v : Value) : Prop :=
  ∀ u : Value, u.Occurs v → u.isInert = true ∨ ∃ a ∈ args, u.Occurs a

theorem from_scalar {v : Value} (h : IsScalar v) (args : List Value) : From args v := by
  intro u hu
  rcases h with ⟨n, rfl⟩ | ⟨b, rfl⟩ <;>
  · cases hu
    exact Or.inl rfl

theorem from_list {args items : List Value} (h : ∀ w ∈ items, ∃ a ∈ args, w.Occurs a) :
    From args (.list items) := by
  intro u hu
  rcases Value.occurs_list_iff.1 hu with rfl | ⟨w, hw, huw⟩
  · exact Or.inl rfl
  · obtain ⟨a, ha, hwa⟩ := h w hw
    exact Or.inr ⟨a, ha, huw.trans hwa⟩

theorem onData_faultOr (describe : ClosureId → String) (p : Primitive) (args : List Value) :
    FaultOr (From args) (p.onData describe args) := by
  have hbool (b : Bool) : From args (.bool b) := from_scalar (Or.inr ⟨b, rfl⟩) args
  unfold onData
  split
  · exact hbool _
  · exact from_list fun w hw => ⟨w, hw, .here⟩
  · rename_i v
    refine (items_faultOr describe .car v).bind fun items hitems => ?_
    cases items with
    | nil => exact trivial
    | cons head tail =>
      intro u hu
      rw [hitems]
      exact Or.inr ⟨_, List.mem_singleton_self _, .item List.mem_cons_self hu⟩
  · rename_i v
    refine (items_faultOr describe .cdr v).bind fun items hitems => ?_
    cases items with
    | nil => exact trivial
    | cons head tail =>
      refine from_list fun w hw => ⟨v, List.mem_singleton_self v, ?_⟩
      rw [hitems]
      exact .item (List.mem_cons_of_mem head hw) .here
  · rename_i head v
    refine (items_faultOr describe .cons v).bind fun tail htail => from_list fun w hw => ?_
    rcases List.mem_cons.1 hw with rfl | hw
    · exact ⟨w, List.mem_cons_self, .here⟩
    · refine ⟨v, List.mem_cons_of_mem head (List.mem_singleton_self v), ?_⟩
      rw [htail]
      exact .item hw .here
  · exact (concatenate_faultOr describe args).map fun items hitems => from_list hitems
  · exact (items_faultOr describe .length _).bind fun items _ =>
      from_scalar (Or.inl ⟨_, rfl⟩) _
  · exact hbool _
  · exact hbool _
  · exact arityError_isFault _ _

end Primitive

end Scheme
