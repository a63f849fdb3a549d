import Mathlib
import Scheme.Number.Order

/-!
# What floats stand for

A float is its bits, and its place on the line is the number that they make up.
-/

namespace Scheme

open Float.Model Float.Model.UnpackedFloat

/-! ## Parts -/

def fractionField (x : Float) : Nat := x.toBits.toNat % 2 ^ 52

def exponentField (x : Float) : Nat := x.toBits.toNat / 2 ^ 52 % 2 ^ 11

def signField (x : Float) : Sign := if signBit x then .negative else .positive

theorem fractionField_lt (x : Float) : fractionField x < 2 ^ 52 := Nat.mod_lt _ (by omega)

theorem signBit_eq (x : Float) : signBit x = decide (2 ^ 63 ≤ x.toBits.toNat) := by
  have hlt := x.toBits.toNat_lt
  rw [Bool.eq_iff_iff]
  simp only [signBit, beq_iff_eq, ← UInt64.toNat_inj, UInt64.toNat_shiftRight,
    Nat.shiftRight_eq_div_pow, decide_eq_true_eq]
  change x.toBits.toNat / 2 ^ 63 = 1 ↔ _
  omega

theorem eq_of_toBits {x y : Float} (h : x.toBits = y.toBits) : x = y := by
  obtain ⟨⟨bits, _⟩⟩ := x
  obtain ⟨⟨bits', _⟩⟩ := y
  obtain rfl : bits = bits' := h
  rfl

theorem eq_of_fields {x y : Float} (hs : signField x = signField y)
    (he : exponentField x = exponentField y) (hf : fractionField x = fractionField y) :
    x = y := by
  have hx := x.toBits.toNat_lt
  have hy := y.toBits.toNat_lt
  have hsign : signBit x = signBit y := by
    unfold signField at hs
    cases hx : signBit x <;> cases hy : signBit y <;> simp [hx, hy] at hs ⊢
  rw [signBit_eq, signBit_eq, decide_eq_decide] at hsign
  unfold exponentField at he
  unfold fractionField at hf
  apply eq_of_toBits
  apply UInt64.toNat_inj.1
  omega

theorem toNat_unpackMantissa (x : Float) :
    (@unpackMantissa .binary64 x.toBits.toBitVec).toNat = fractionField x := by
  simp [unpackMantissa, BitVec.extractLsb_toNat, fractionField]

theorem toNat_unpackExponent (x : Float) :
    (@unpackExponent .binary64 x.toBits.toBitVec).toNat = exponentField x := by
  simp [unpackExponent, BitVec.extractLsb_toNat, Nat.shiftRight_eq_div_pow, exponentField]

theorem ofBitVec_unpackSign (x : Float) :
    Sign.ofBitVec (@unpackSign .binary64 x.toBits.toBitVec) = signField x := by
  have hlt := x.toBits.toNat_lt
  unfold signField
  rw [signBit_eq]
  simp only [Sign.ofBitVec, unpackSign, ← BitVec.toNat_inj, BitVec.toNat_cast,
    BitVec.extractLsb_toNat, Nat.shiftRight_eq_div_pow, UInt64.toNat_toBitVec]
  split <;> split <;> simp at * <;> omega

/-- What the parts of a float make of it. The exponent counts from the last bit of the fraction,
and a fraction that is not the least one has a one before it. -/
inductive Unpacks (x : Float) : UnpackedFloat → Prop where
  | infinity (exponent : exponentField x = 2047) (fraction : fractionField x = 0) :
      Unpacks x (.infinity (signField x))
  | notANumber (exponent : exponentField x = 2047) (fraction : fractionField x ≠ 0) :
      Unpacks x .notANumber
  | zero (exponent : exponentField x = 0) (fraction : fractionField x = 0) :
      Unpacks x (.zero (signField x))
  | subnormal (exponent : exponentField x = 0) (fraction : 0 < fractionField x) :
      Unpacks x (.finite (signField x) (fractionField x) (-1074) fraction)
  | normal (exponent : exponentField x ≠ 0) (exponent' : exponentField x ≠ 2047)
      (pos : 0 < 2 ^ 52 + fractionField x) :
      Unpacks x (.finite (signField x) (2 ^ 52 + fractionField x) (exponentField x - 1075) pos)

theorem unpacks (x : Float) : Unpacks x x.toModel.unpack := by
  have hm := toNat_unpackMantissa x
  have he := toNat_unpackExponent x
  have hfraction : @unpackMantissa .binary64 x.toBits.toBitVec = 0#_ ↔ fractionField x = 0 := by
    rw [← BitVec.toNat_inj, hm]
    rfl
  have hleast : @unpackExponent .binary64 x.toBits.toBitVec = 0#_ ↔ exponentField x = 0 := by
    rw [← BitVec.toNat_inj, he]
    rfl
  have hmost : @unpackExponent .binary64 x.toBits.toBitVec = -1#_ ↔ exponentField x = 2047 := by
    rw [← BitVec.toNat_inj, he]
    rfl
  have hbias : (Format.binary64.exponentBias + Format.binary64.mantissaBitsWithoutImplicit : Int) =
      1075 := rfl
  have happend (m : BitVec 52) : (1#1 ++ m).toNat = 2 ^ 52 + m.toNat := by
    rw [BitVec.toNat_append, ← Nat.shiftLeft_add_eq_or_of_lt m.isLt]
    rfl
  change Unpacks x (UnpackedFloat.unpack .binary64 x.toBits.toBitVec)
  unfold UnpackedFloat.unpack
  simp only [ofBitVec_unpackSign, hfraction, hleast, hmost, hbias, he, happend, hm]
  split
  · rename_i hexponent
    split
    · exact .infinity hexponent ‹_›
    · exact .notANumber hexponent ‹_›
  · split
    · rename_i hexponent
      split
      · exact .zero hexponent ‹_›
      · rw [hexponent]
        exact .subnormal hexponent _
    · exact .normal ‹_› ‹_› _

theorem Unpacks.eq {x y : Float} {u v : UnpackedFloat} (hx : Unpacks x u) (hy : Unpacks y v)
    (huv : u = v) (hu : u ≠ .notANumber) : x = y := by
  have hfx := fractionField_lt x
  have hfy := fractionField_lt y
  cases hx with
  | notANumber => exact absurd rfl hu
  | infinity he hf =>
    cases hy with
    | infinity he' hf' => exact eq_of_fields (infinity.inj huv) (by omega) (by omega)
    | _ => cases huv
  | zero he hf =>
    cases hy with
    | zero he' hf' => exact eq_of_fields (zero.inj huv) (by omega) (by omega)
    | _ => cases huv
  | subnormal he hf =>
    cases hy with
    | subnormal he' hf' =>
      obtain ⟨hs, hm, -⟩ := finite.inj huv
      exact eq_of_fields hs (by omega) hm
    | normal he' =>
      obtain ⟨-, hm, -⟩ := finite.inj huv
      omega
    | _ => cases huv
  | normal he he' =>
    cases hy with
    | normal =>
      obtain ⟨hs, hm, he⟩ := finite.inj huv
      exact eq_of_fields hs (by omega) (by omega)
    | subnormal =>
      obtain ⟨-, hm, -⟩ := finite.inj huv
      omega
    | _ => cases huv

/-! ## Equality -/

theorem compare_eq_iff {u v : UnpackedFloat} : UnpackedFloat.compare u v = some .eq ↔
    u ≠ .notANumber ∧ (u = v ∨ ∃ s t, u = .zero s ∧ v = .zero t) := by
  have hthen (a b : Ordering) : a.then b = .eq ↔ a = .eq ∧ b = .eq := by
    cases a <;> simp [Ordering.then]
  have hsign (s t : Sign) : compare s t = .eq ↔ s = t := by
    cases s <;> cases t <;> simp [compare]
  rcases u with (_ | _) | _ | s | ⟨_ | _, m, e, h⟩ <;>
    rcases v with (_ | _) | _ | t | ⟨_ | _, n, k, h'⟩ <;>
    simp [UnpackedFloat.compare, hthen, hsign, and_comm]

theorem eq_zero_of_unpack {x : Float} {s : Sign} (h : x.toModel.unpack = .zero s) :
    x = 0.0 ∨ x = -0.0 := by
  have hx := unpacks x
  rw [h] at hx
  cases hx with
  | zero he hf =>
    cases hs : signBit x with
    | false => exact Or.inl (eq_of_fields (by simp [signField, hs]; decide +kernel) he hf)
    | true => exact Or.inr (eq_of_fields (by simp [signField, hs]; decide +kernel) he hf)

theorem unpack_zero {x : Float} (h : x = 0.0 ∨ x = -0.0) : ∃ s, x.toModel.unpack = .zero s := by
  obtain rfl | rfl := h <;> exact ⟨_, by rfl⟩

/-- The float, or zero if it is the negative zero. -/
def unsignZero (x : Float) : Float := if x = -0.0 then 0.0 else x

theorem beq_iff {x y : Float} (hx : x.isNaN = false) :
    (x == y) = true ↔ unsignZero x = unsignZero y := by
  have hnumber : x.toModel.unpack ≠ .notANumber := by
    intro h
    change x.toModel.unpack.isNaN = false at hx
    rw [h] at hx
    cases hx
  have hcompare : (x == y) = true ↔
      UnpackedFloat.compare x.toModel.unpack y.toModel.unpack = some .eq := by
    change (UnpackedFloat.compare _ _ == some .eq) = true ↔ _
    simp
  rw [hcompare, compare_eq_iff]
  constructor
  · rintro ⟨-, h | ⟨s, t, hs, ht⟩⟩
    · rw [(unpacks x).eq (unpacks y) h hnumber]
    · obtain rfl | rfl := eq_zero_of_unpack hs <;> obtain rfl | rfl := eq_zero_of_unpack ht <;>
        simp [unsignZero]
  · intro h
    refine ⟨hnumber, ?_⟩
    unfold unsignZero at h
    split at h <;> split at h <;> rename_i hx hy
    · exact Or.inl (by rw [hx, hy])
    · obtain ⟨s, hs⟩ := unpack_zero (.inr hx)
      obtain ⟨t, ht⟩ := unpack_zero (.inl h.symm)
      exact Or.inr ⟨s, t, hs, ht⟩
    · obtain ⟨s, hs⟩ := unpack_zero (.inl h)
      obtain ⟨t, ht⟩ := unpack_zero (.inr hy)
      exact Or.inr ⟨s, t, hs, ht⟩
    · exact Or.inl (by rw [h])

/-! ## Exact values -/

/-- The number that a float stands for, with both infinities. -/
def unpackedValue : UnpackedFloat → WithBot (WithTop ℚ)
  | .infinity .negative => ⊥
  | .infinity .positive => ⊤
  | .finite s m e _ => ((s.apply m * 2 ^ e : ℚ) : WithTop ℚ)
  | .zero _ | .notANumber => ((0 : ℚ) : WithTop ℚ)

namespace Number

def exact : Number → WithBot (WithTop ℚ)
  | .int n => ((n : ℚ) : WithTop ℚ)
  | .float x => unpackedValue x.toModel.unpack

def isNaN : Number → Bool
  | .int _ => false
  | .float x => x.isNaN

end Number

def Place.value : Place → WithBot (WithTop ℚ)
  | .bottom => ⊥
  | .at q => (q : WithTop ℚ)
  | .top => ⊤

theorem Place.lt_iff (p q : Place) : p.lt q = true ↔ p.value < q.value := by
  cases p with
  | «at» a =>
    cases q with
    | top => exact iff_of_true rfl (WithBot.coe_lt_coe.2 (WithTop.coe_lt_top a))
    | _ => simp [Place.lt, Place.value]
  | _ => cases q <;> simp [Place.lt, Place.value]

theorem ofFloat_eq (x : Float) : Binary.ofFloat x =
    if exponentField x = 0 then ⟨fractionField x, -1074⟩
    else ⟨2 ^ 52 + fractionField x, exponentField x - 1075⟩ := by
  have he : (x.toBits >>> 52 &&& 0x7FF).toNat = exponentField x := by
    rw [UInt64.toNat_and, UInt64.toNat_shiftRight, Nat.shiftRight_eq_div_pow]
    exact Nat.and_two_pow_sub_one_eq_mod _ 11
  have hf : (x.toBits &&& 0xFFFFFFFFFFFFF).toNat = fractionField x := by
    rw [UInt64.toNat_and]
    exact Nat.and_two_pow_sub_one_eq_mod _ 52
  unfold Binary.ofFloat
  simp only [he, hf]
  rfl

theorem Binary.num_div_den (b : Binary) : (b.num : ℚ) / b.den = b.mantissa * 2 ^ b.exponent := by
  obtain ⟨m, e⟩ := b
  unfold Binary.num Binary.den
  obtain ⟨n, rfl | rfl⟩ := Int.eq_nat_or_neg e
  · simp
  · simp [div_eq_mul_inv]

theorem exactValue_eq (x : Float) :
    exactValue x =
      (signField x).apply (Binary.ofFloat x).mantissa * 2 ^ (Binary.ofFloat x).exponent := by
  unfold exactValue signField
  simp only [Rat.mkRat_eq_div]
  cases signBit x
  · simp [Sign.apply, Binary.num_div_den]
  · simp [Sign.apply, Binary.num_div_den, neg_div]

/-- The place of a number is its exact value. -/
theorem Number.exists_place {n : Number} (h : n.isNaN = false) :
    ∃ p, n.place? = some p ∧ p.value = n.exact := by
  cases n with
  | int n => exact ⟨.at n, rfl, rfl⟩
  | float x =>
    have hx := unpacks x
    have hvalue := exactValue_eq x
    rw [ofFloat_eq] at hvalue
    have hinf : x.isInf = x.toModel.unpack.isInf := rfl
    change x.isNaN = false at h
    simp only [place?, exact, h, hinf]
    change x.toModel.unpack.isNaN = false at h
    generalize x.toModel.unpack = u at *
    cases hx with
    | notANumber => cases h
    | infinity =>
      refine ⟨_, rfl, ?_⟩
      unfold signField
      cases signBit x <;> rfl
    | zero he hf =>
      refine ⟨_, rfl, ?_⟩
      rw [hvalue]
      cases signField x <;> simp [Place.value, unpackedValue, he, hf, Sign.apply]
    | subnormal he =>
      refine ⟨_, rfl, ?_⟩
      rw [hvalue]
      simp [Place.value, unpackedValue, he]
    | normal he =>
      refine ⟨_, rfl, ?_⟩
      rw [hvalue]
      simp [Place.value, unpackedValue, he]

end Scheme
