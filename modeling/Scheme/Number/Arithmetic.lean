import Scheme.Number.Basic

/-!
# Arithmetic

Integers are exact, and as soon as a float takes part the result is one.
-/

namespace Scheme.Number

/-- Applies the exact operation to integers and the other one as soon as a float takes part. -/
def combine? (exact : Int → Int → Int) (inexact : Float → Float → Float) (a b : Number) :
    Option Number :=
  match a, b with
  | .int m, .int n => some (.int (exact m n))
  | a, b => do return .float (inexact (← a.toFloat?) (← b.toFloat?))

def add? : Number → Number → Option Number := combine? (· + ·) (· + ·)

def sub? : Number → Number → Option Number := combine? (· - ·) (· - ·)

def mul? : Number → Number → Option Number := combine? (· * ·) (· * ·)

/-- The quotient of integers: the integer below it, or the next one if the one below is negative
and not exact. -/
def intQuotient (a b : Int) : Int :=
  let q := a.fdiv b
  if q < 0 ∧ q * b ≠ a then q + 1 else q

theorem intQuotient_eq (a b : Int) : intQuotient a b = a.tdiv b := by
  have hexact : a.fdiv b * b = a ↔ b ∣ a :=
    ⟨fun h => ⟨a.fdiv b, by rw [Int.mul_comm, h]⟩, Int.fdiv_mul_cancel⟩
  unfold intQuotient
  rw [Int.tdiv_eq_fdiv]
  simp only [ne_eq, hexact]
  by_cases h : b ∣ a
  · simp [h]
  have ha : a ≠ 0 := fun ha => h (ha ▸ Int.dvd_zero b)
  simp only [h, not_false_eq_true, and_true, if_false]
  -- A quotient that is not exact is below zero just if the signs differ.
  rcases Int.lt_trichotomy b 0 with hb | rfl | hb
  · have hsign : b.sign = -1 := Int.sign_eq_neg_one_of_neg hb
    rcases Int.lt_or_gt_of_ne ha with ha | ha
    · have hq := Int.fdiv_nonneg_of_nonpos_of_nonpos (Int.le_of_lt ha) (Int.le_of_lt hb)
      split <;> split <;> omega
    · have hq : a.fdiv b < 0 := by
        rw [← Int.neg_fdiv_neg]
        exact Int.fdiv_neg_of_neg_of_pos (by omega) (by omega)
      split <;> split <;> omega
  · simp
  · have hsign : b.sign = 1 := Int.sign_eq_one_of_pos hb
    rcases Int.lt_or_gt_of_ne ha with ha | ha
    · have hq := Int.fdiv_neg_of_neg_of_pos ha hb
      split <;> split <;> omega
    · have hq := Int.fdiv_nonneg (Int.le_of_lt ha) (Int.le_of_lt hb)
      split <;> split <;> omega

/-- The quotient by a number other than zero. -/
def quotient? : Number → Number → Option Number := combine? intQuotient (· / ·)

def neg : Number → Number
  | .int n => .int (-n)
  | .float x => .float (-x)

/-- A power of an integer. Bases that no power makes large do not walk through the exponent. -/
def intPow (base : Int) (exponent : Nat) : Int :=
  if base = 0 then if exponent = 0 then 1 else 0
  else if base = 1 then 1
  else if base = -1 then if exponent % 2 = 0 then 1 else -1
  else base.pow exponent

theorem neg_one_pow_mod_two (n : Nat) : Int.pow (-1) n = Int.pow (-1) (n % 2) := by
  change (-1 : Int) ^ n = (-1) ^ (n % 2)
  conv => lhs; rw [← Nat.div_add_mod n 2]
  rw [Int.pow_add, Int.pow_mul, show (-1 : Int) ^ 2 = 1 from rfl, Int.one_pow, Int.one_mul]

theorem intPow_eq (base : Int) (exponent : Nat) : intPow base exponent = base.pow exponent := by
  unfold intPow
  split
  · next h =>
    subst h
    split
    · next h => rw [h]; rfl
    · next h => exact (Int.zero_pow h).symm
  split
  · next h =>
    rw [h]
    exact Int.one_pow.symm
  split
  · next h =>
    subst h
    rw [neg_one_pow_mod_two]
    rcases Nat.mod_two_eq_zero_or_one exponent with h | h <;> rw [h] <;> rfl
  · rfl

end Scheme.Number
