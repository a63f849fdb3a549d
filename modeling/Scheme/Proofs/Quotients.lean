import Mathlib.Algebra.Ring.Int.Defs
import Scheme.Eval

/-!
# Quotients of integers

A call of `/` cuts every quotient toward zero, which is as good as cutting once.
-/

namespace Scheme

/-! ## Quotients that are cut toward zero -/

namespace Number

/-- What is left of `a` is smaller than `b` and on the same side of zero as `a`. -/
def IsTruncated (a b q : Int) : Prop :=
  (a - q * b).natAbs < b.natAbs ∧ (a - q * b = 0 ∨ (a - q * b).sign = a.sign)

instance (a b q : Int) : Decidable (IsTruncated a b q) := inferInstanceAs (Decidable (_ ∧ _))

theorem isTruncated_tdiv (a : Int) {b : Int} (h : b ≠ 0) : IsTruncated a b (a.tdiv b) := by
  have hrest : a - a.tdiv b * b = a.tmod b := by
    rw [Int.tmod_def, Int.mul_comm]
  have hlt : a.natAbs % b.natAbs < b.natAbs := Nat.mod_lt _ (Int.natAbs_pos.2 h)
  have hsign := Int.sign_tmod a b
  unfold IsTruncated
  rw [hrest, Int.natAbs_tmod]
  refine ⟨hlt, ?_⟩
  by_cases hdvd : b ∣ a
  · exact Or.inl (Int.tmod_eq_zero_of_dvd hdvd)
  · rw [if_neg hdvd] at hsign
    exact Or.inr hsign

theorem IsTruncated.eq_tdiv {a b q : Int} (h : IsTruncated a b q) : q = a.tdiv b := by
  obtain ⟨hlt, hsign⟩ := h
  have hb : b ≠ 0 := by
    rintro rfl
    simp at hlt
  have hsum : a - q * b + b * q = a := by
    rw [Int.mul_comm b q, Int.sub_add_cancel]
  generalize a - q * b = r at hlt hsign hsum
  rcases Int.le_total 0 a with ha | ha
  · have hr : 0 ≤ r := by
      obtain rfl | hsign := hsign
      · exact Int.le_refl 0
      · rwa [← Int.sign_nonneg_iff, hsign, Int.sign_nonneg_iff]
    exact ((Int.tdiv_tmod_unique ha hb).2 ⟨hsum, hr, by omega⟩).1.symm
  · have hr : r ≤ 0 := by
      obtain rfl | hsign := hsign
      · exact Int.le_refl 0
      · rwa [← Int.sign_nonpos_iff, hsign, Int.sign_nonpos_iff]
    exact ((Int.tdiv_tmod_unique' ha hb).2 ⟨hsum, by omega, hr⟩).1.symm

theorem tdiv_tdiv (a b c : Int) : (a.tdiv b).tdiv c = a.tdiv (b * c) := by
  -- The signs come out of the quotients, and what is left divides natural numbers.
  obtain ⟨m, rfl | rfl⟩ := Int.eq_nat_or_neg a <;> obtain ⟨n, rfl | rfl⟩ := Int.eq_nat_or_neg b <;>
    obtain ⟨k, rfl | rfl⟩ := Int.eq_nat_or_neg c <;>
    simp only [Int.neg_tdiv, Int.tdiv_neg, Int.neg_neg, Int.neg_mul, Int.mul_neg,
      ← Int.ofNat_tdiv, ← Int.natCast_mul, Nat.div_div_eq_div_mul]

theorem foldl_tdiv (a : Int) (bs : List Int) : bs.foldl Int.tdiv a = a.tdiv bs.prod := by
  induction bs generalizing a with
  | nil => simp
  | cons b bs ih => rw [List.foldl_cons, ih, tdiv_tdiv, List.prod_cons]

theorem prod_ne_zero {bs : List Int} (h : 0 ∉ bs) : bs.prod ≠ 0 := by
  induction bs with
  | nil => decide
  | cons b bs ih =>
    simp only [List.mem_cons, not_or] at h
    rw [List.prod_cons]
    exact Int.mul_ne_zero (Ne.symm h.1) (ih h.2)

end Number

open Number

/-! ## Calls -/

namespace Value

def integer (n : Int) : Value := .num (.int n)

end Value

namespace Primitive

theorem numbers_map (describe : ClosureId → String) (room : Nat) (name : String)
    (ns : List Number) : numbers describe room name (ns.map Value.num) = .ok ns := by
  induction ns with
  | nil => rfl
  | cons n ns ih =>
    simp only [List.map_cons, numbers, Value.number?]
    rw [ih]
    rfl

theorem callNumeric_numbers (describe : ClosureId → String) (room : Nat) {p : Primitive}
    {ns : List Number} (h : p.arity.admits ns.length = true) :
    p.callNumeric describe room (ns.map .num) = p.compute ns := by
  have hcheck : p.checkArity (ns.map Value.num).length = .ok () := by
    rw [List.length_map]
    exact if_pos h
  unfold callNumeric
  rw [hcheck, numbers_map]
  rfl

theorem divide_int (a b : Int) :
    divide (.int a) (.int b) = if b = 0 then .error .divisionByZero else .ok (.int (a.tdiv b)) := by
  simp only [divide, isZero, beq_iff_eq]
  split
  · rfl
  · rw [← intQuotient_eq]
    rfl

theorem foldlM_divide (a : Int) (bs : List Int) :
    (bs.map Number.int).foldlM divide (.int a) =
      if 0 ∈ bs then .error .divisionByZero else .ok (.int (bs.foldl Int.tdiv a)) := by
  induction bs generalizing a with
  | nil => rfl
  | cons b bs ih =>
    rw [List.map_cons, List.foldlM_cons, divide_int]
    by_cases hb : b = 0
    · simp [hb, bind, Except.bind]
    · have hmem : 0 ∈ b :: bs ↔ 0 ∈ bs := by simp [Ne.symm hb]
      simp only [if_neg hb, bind, Except.bind, ih, hmem, List.foldl_cons]

theorem callNumeric_div (describe : ClosureId → String) (room : Nat) (a b : Int)
    (bs : List Int) :
    callNumeric describe room .div ((a :: b :: bs).map Value.integer) =
      if 0 ∈ b :: bs then .error .divisionByZero
      else .ok (.integer (a.tdiv (b :: bs).prod)) := by
  have hfold := foldlM_divide a (b :: bs)
  have hcompute : callNumeric describe room .div ((a :: b :: bs).map Value.integer) =
      Value.num <$> ((b :: bs).map Number.int).foldlM divide (.int a) := by
    have hargs : (a :: b :: bs).map Value.integer = ((a :: b :: bs).map Number.int).map .num :=
      (List.map_map ..).symm
    rw [hargs, callNumeric_numbers describe room rfl]
    rfl
  rw [hcompute, hfold, foldl_tdiv]
  split <;> rfl

theorem callNumeric_div_single (describe : ClosureId → String) (room : Nat) (v : Value) :
    callNumeric describe room .div [v] = callNumeric describe room .div [.integer 1, v] := by
  cases v with
  | num n =>
    have hfold : [n].foldlM divide (.int 1) = divide (.int 1) n := by
      simp only [List.foldlM_cons, List.foldlM_nil, bind_pure]
    exact (congrArg (Value.num <$> ·) hfold).symm
  | list items =>
    unfold callNumeric
    simp only [numbers, Value.number?, Value.integer]
    cases (Value.list items).visit room <;> rfl
  | _ => rfl

end Primitive

namespace Eval

theorem run_numeric {p : Primitive} (h : p.isNumeric = true) (depth : Nat) (args : List Value)
    (s : Store) :
    run (depth + 1) (.call (.primitive p) args) s =
      ofExcept (p.callNumeric s.describe depth args) s := by
  cases p with
  | _ => first | rfl | cases h

/-- **A quotient is cut once.** -/
theorem run_div (a b : Int) (bs : List Int) (depth : Nat) (s : Store) :
    let call (args : List Value) := run (depth + 1) (.call (.primitive .div) args) s
    let outcome := call ((a :: b :: bs).map .integer)
    (outcome = .error .divisionByZero s ↔ 0 ∈ b :: bs) ∧
    (0 ∉ b :: bs → ∃ q, outcome = .ok (.integer q) s ∧
      ∀ r, IsTruncated a (b :: bs).prod r ↔ r = q) ∧
    ∀ v, call [v] = call [.integer 1, v] := by
  intro call outcome
  have hcall (args : List Value) :
      call args = ofExcept (Primitive.div.callNumeric s.describe depth args) s :=
    run_numeric rfl depth args s
  have houtcome : outcome = _ := hcall _
  rw [Primitive.callNumeric_div] at houtcome
  refine ⟨?_, ?_, ?_⟩
  · rw [houtcome]
    by_cases hmem : 0 ∈ b :: bs
    · rw [if_pos hmem]
      exact iff_of_true rfl hmem
    · rw [if_neg hmem]
      refine iff_of_false ?_ hmem
      intro hfails
      cases hfails
  · intro hmem
    rw [if_neg hmem] at houtcome
    refine ⟨a.tdiv (b :: bs).prod, houtcome, fun r => ⟨IsTruncated.eq_tdiv, ?_⟩⟩
    rintro rfl
    exact isTruncated_tdiv a (prod_ne_zero hmem)
  · intro v
    rw [hcall, hcall, Primitive.callNumeric_div_single]

theorem run_div_signs :
    0 ∉ [2, -3] ∧
      run 1 (.call (.primitive .div) ([-7, 2, -3].map Value.integer)) {} =
        .ok (.integer 1) {} := by
  have hmem : (0 : Int) ∉ [2, -3] := by decide
  obtain ⟨q, hq, hcut⟩ := (run_div (-7) 2 [-3] 0 {}).2.1 hmem
  have hone : (1 : Int) = q := (hcut 1).1 (by decide)
  subst hone
  exact ⟨hmem, hq⟩

end Eval

end Scheme
