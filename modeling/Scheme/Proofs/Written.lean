import Scheme.Proofs.Numerals

/-!
# Written literals are words that read back

No integer that is written is taken for a float, and no float for an integer.
-/

namespace Scheme

open Scheme.Text

/-! ## Digits -/

def IsDigits (ds : List Char) : Prop := ∀ c ∈ ds, c.isDigit = true

/-- The values of ASCII digits. -/
def digitValues (ds : List Char) : List Nat := ds.map fun c => c.toNat - 48

theorem isDigit_bounds {c : Char} (h : c.isDigit = true) : 48 ≤ c.toNat ∧ c.toNat ≤ 57 := by
  simpa [Char.isDigit, UInt32.le_iff_toNat_le] using h

theorem digit?_of_isDigit {c : Char} (h : c.isDigit = true) : digit? c = some (c.toNat - 48) := by
  have ⟨h1, h2⟩ := isDigit_bounds h
  have hz : (decide (48 ≤ c.toNat) && decide (c.toNat < 48 + 10)) = true := by
    simp
    omega
  unfold digit? zeros
  rw [List.find?_cons, hz]
  rfl

theorem isAtomChar_of_isDigit {c : Char} (h : c.isDigit = true) : isAtomChar c = true := by
  have ⟨h1, h2⟩ := isDigit_bounds h
  have hne {d : Char} (hd : d.isDigit = false) : c ≠ d := by
    rintro rfl
    rw [h] at hd
    simp at hd
  refine Lexer.isAtomChar_iff.2 ⟨?_, hne rfl, hne rfl, hne rfl, hne rfl, hne rfl⟩
  simp only [isBlank, blankRanges, CharRanges.holds, List.any_cons, List.any_nil, Bool.or_false,
    Bool.or_eq_false_iff, Bool.and_eq_false_iff, decide_eq_false_iff_not]
  omega

theorem IsDigits.all {ds : List Char} (h : IsDigits ds) : Numeral.AllDigits ds := by
  intro c hc
  rw [digit?_of_isDigit (h c hc)]
  rfl

theorem values_eq {ds : List Char} (h : IsDigits ds) : Numeral.values ds = digitValues ds := by
  induction ds with
  | nil => rfl
  | cons c ds ih =>
    obtain ⟨hc, hds⟩ := List.forall_mem_cons.1 h
    unfold Numeral.values digitValues at ih ⊢
    rw [List.filterMap_cons_some (digit?_of_isDigit hc), ih hds, List.map_cons]

theorem isDigits_writeNat (n : Nat) : IsDigits (writeNat n) := by
  intro c hc
  exact Nat.isDigit_of_mem_toDigits (by omega) (by omega) hc

theorem writeNat_ne_nil (n : Nat) : writeNat n ≠ [] := Nat.toDigits_ne_nil

theorem isDigits_replicate (n : Nat) : IsDigits (List.replicate n '0') := by
  intro c hc
  rw [List.eq_of_mem_replicate hc]
  rfl

theorem isDigits_append {ds es : List Char} (hd : IsDigits ds) (he : IsDigits es) :
    IsDigits (ds ++ es) := by
  intro c hc
  rcases List.mem_append.1 hc with h | h
  · exact hd c h
  · exact he c h

theorem ofDigits_writeNat (n : Nat) : ofDigits (digitValues (writeNat n)) = n := by
  have h : ofDigits (digitValues (writeNat n)) = Nat.ofDigitChars 10 (Nat.toDigits 10 n) 0 := by
    unfold ofDigits digitValues writeNat
    rw [List.foldl_map, Nat.ofDigitChars_eq_foldl]
    congr 1
    funext m c
    rw [Nat.mul_comm]
    rfl
  rw [h, Nat.ofDigitChars_ten_toDigits]

/-! ## Signs -/

def signText (negative : Bool) : List Char := if negative then ['-'] else []

theorem isSign_signText (negative : Bool) : Numeral.IsSign (signText negative) negative := by
  cases negative
  · exact .none
  · exact .minus

theorem isAtomChar_signText {text : List Char} (h : ∀ c ∈ text, isAtomChar c = true)
    (negative : Bool) : ∀ c ∈ signText negative ++ text, isAtomChar c = true := by
  intro c hc
  rcases List.mem_append.1 hc with hc | hc
  · cases negative with
    | true =>
      rw [List.mem_singleton.1 hc]
      rfl
    | false => simp [signText] at hc
  · exact h c hc

/-! ## Integers -/

theorem toList_writeInt (n : Int) :
    (writeInt n).toList = signText (decide (n < 0)) ++ writeNat n.natAbs := by
  cases n with
  | ofNat m =>
    simp [writeInt, Int.repr, signText, writeNat]
  | negSucc m =>
    have h : Int.negSucc m < 0 := by omega
    simp [writeInt, Int.repr, signText, writeNat, h]

theorem ofText?_writeInt (n : Int) :
    Numeral.ofText? (writeInt n).toList =
      some (.integer (decide (n < 0)) (digitValues (writeNat n.natAbs))) := by
  have hdigits := isDigits_writeNat n.natAbs
  rw [toList_writeInt,
    Numeral.ofText?_integer (isSign_signText _) hdigits.all (writeNat_ne_nil _), values_eq hdigits]

theorem signed_natAbs (n : Int) : Numeral.signed (decide (n < 0)) n.natAbs = n := by
  unfold Numeral.signed
  split
  · rename_i h
    have := of_decide_eq_true h
    omega
  · rename_i h
    have : ¬ n < 0 := by simpa using h
    omega

theorem length_digitValues_writeNat {n : Nat} (h : n < 10 ^ Literal.maxDigits) :
    (digitValues (writeNat n)).length ≤ Literal.maxDigits := by
  unfold digitValues writeNat
  rw [List.length_map, Nat.length_toDigits_le_iff (by omega) (by unfold Literal.maxDigits; omega)]
  exact h

theorem ofWord_writeInt {n : Int} (h : n.natAbs < 10 ^ Literal.maxDigits) :
    Literal.ofWord (writeInt n).toList = .ok (.num (.int n)) := by
  have hlength := length_digitValues_writeNat h
  rw [ofWord_integer (ofText?_writeInt n), if_neg (by omega), ofDigits_writeNat, signed_natAbs]

theorem isAtomChar_writeInt (n : Int) : ∀ c ∈ (writeInt n).toList, isAtomChar c = true := by
  rw [toList_writeInt]
  exact isAtomChar_signText (fun c hc => isAtomChar_of_isDigit (isDigits_writeNat _ c hc)) _

theorem writeInt_ne_nil (n : Int) : (writeInt n).toList ≠ [] := by
  rw [toList_writeInt]
  exact List.append_ne_nil_of_right_ne_nil _ (writeNat_ne_nil _)

/-! ## Floats

The text of a finite float is a fraction, whichever way it is laid out. -/

/-- The text behind the sign of a float that is written. -/
structure IsFraction (text : List Char) : Prop where
  shape : Numeral.FractionText text
  isAtomChar : ∀ c ∈ text, isAtomChar c = true

theorem isAtomChar_point {whole part : List Char} (hw : IsDigits whole)
    (hp : ∀ c ∈ part, isAtomChar c = true) : ∀ c ∈ whole ++ '.' :: part, isAtomChar c = true := by
  intro c hc
  rcases List.mem_append.1 hc with hc | hc
  · exact isAtomChar_of_isDigit (hw c hc)
  · rcases List.mem_cons.1 hc with rfl | hc
    · decide
    · exact hp c hc

theorem isFraction_point {whole part : List Char} (hw : IsDigits whole) (hne : whole ≠ [])
    (hp : IsDigits part) : IsFraction (whole ++ '.' :: part) where
  shape := by
    rw [← List.append_nil part]
    exact .pointBehind hw.all hne hp.all (.inl rfl)
  isAtomChar := isAtomChar_point hw fun c hc => isAtomChar_of_isDigit (hp c hc)

/-! ### Exponents -/

theorem writeExponent_eq (e : Int) :
    ∃ sign ds, Decimal.writeExponent e = 'e' :: sign :: ds ∧ (sign = '-' ∨ sign = '+') ∧
      IsDigits ds ∧ ds ≠ [] := by
  refine ⟨_, _, rfl, ?_, ?_, ?_⟩
  · split
    · exact Or.inl rfl
    · exact Or.inr rfl
  · exact isDigits_append (isDigits_replicate _) (isDigits_writeNat _)
  · simp [writeNat_ne_nil]

theorem isAtomChar_writeExponent (e : Int) :
    ∀ c ∈ Decimal.writeExponent e, isAtomChar c = true := by
  obtain ⟨sign, ds, h, hsign, hd, -⟩ := writeExponent_eq e
  rw [h]
  intro c hc
  simp only [List.mem_cons] at hc
  rcases hc with rfl | rfl | hc
  · decide
  · rcases hsign with rfl | rfl <;> decide
  · exact isAtomChar_of_isDigit (hd c hc)

theorem isExponent_writeExponent (e : Int) : Numeral.IsExponent (Decimal.writeExponent e) := by
  obtain ⟨sign, ds, h, hsign, hd, hne⟩ := writeExponent_eq e
  rw [h]
  rcases hsign with rfl | rfl
  · exact @Numeral.IsExponent.mk 'e' ['-'] ds true (.inl rfl) .minus hd.all hne
  · exact @Numeral.IsExponent.mk 'e' ['+'] ds false (.inl rfl) .plus hd.all hne

theorem isFraction_exponent {whole : List Char} (hw : IsDigits whole) (hne : whole ≠ [])
    (e : Int) : IsFraction (whole ++ Decimal.writeExponent e) where
  shape := .noPoint hw.all hne (isExponent_writeExponent e)
  isAtomChar c hc := by
    rcases List.mem_append.1 hc with hc | hc
    · exact isAtomChar_of_isDigit (hw c hc)
    · exact isAtomChar_writeExponent e c hc

theorem isFraction_point_exponent {whole part : List Char} (hw : IsDigits whole)
    (hne : whole ≠ []) (hp : IsDigits part) (e : Int) :
    IsFraction (whole ++ '.' :: (part ++ Decimal.writeExponent e)) where
  shape := .pointBehind hw.all hne hp.all (.inr (isExponent_writeExponent e))
  isAtomChar := by
    apply isAtomChar_point hw
    intro c hc
    rcases List.mem_append.1 hc with hc | hc
    · exact isAtomChar_of_isDigit (hp c hc)
    · exact isAtomChar_writeExponent e c hc

/-! ### Layouts -/

theorem isFraction_positional {ds : List Char} (hd : IsDigits ds) (hne : ds ≠ []) (point : Int) :
    IsFraction (Decimal.positional ds point) := by
  have hzero : IsDigits ['0'] := isDigits_replicate 1
  unfold Decimal.positional
  split
  · exact isFraction_point hzero (by simp) (isDigits_append (isDigits_replicate _) hd)
  split
  · rw [show ['.', '0'] = '.' :: ['0'] by rfl]
    exact isFraction_point (isDigits_append hd (isDigits_replicate _)) (by simp [hne]) hzero
  · apply isFraction_point
    · exact fun c hc => hd c (List.mem_of_mem_take hc)
    · have hl := List.length_pos_iff.2 hne
      simp only [ne_eq, List.take_eq_nil_iff, hne, or_false]
      omega
    · exact fun c hc => hd c (List.mem_of_mem_drop hc)

theorem isFraction_scientific {ds : List Char} (hd : IsDigits ds) (hne : ds ≠ []) (e : Int) :
    IsFraction (Decimal.scientific ds e) := by
  unfold Decimal.scientific
  split
  · rename_i d d' rest
    have h1 : IsDigits [d] := fun c hc => hd c (by simp at hc; simp [hc])
    have h2 : IsDigits (d' :: rest) := fun c hc => hd c (List.mem_cons_of_mem d hc)
    exact isFraction_point_exponent h1 (by simp) h2 e
  · exact isFraction_exponent hd hne e

theorem isFraction_write (d : Decimal) : IsFraction d.write := by
  unfold Decimal.write
  simp only
  split
  · exact isFraction_positional (isDigits_writeNat _) (writeNat_ne_nil _) _
  · exact isFraction_scientific (isDigits_writeNat _) (writeNat_ne_nil _) _

theorem finite_cases {x : Float} (h : x.isFinite = true) : x.isNaN = false ∧ x.isInf = false := by
  change x.toModel.unpack.isFinite = true at h
  change x.toModel.unpack.isNaN = false ∧ x.toModel.unpack.isInf = false
  generalize x.toModel.unpack = u at h ⊢
  cases u <;> first | exact ⟨rfl, rfl⟩ | cases h

theorem toList_writeFloat {x : Float} (h : x.isFinite = true) :
    ∃ text, (writeFloat x).toList = signText (signBit x) ++ text ∧ IsFraction text := by
  obtain ⟨hn, hi⟩ := finite_cases h
  refine ⟨if x == 0.0 then ['0', '.', '0'] else (Decimal.shortest x.abs).write, ?_, ?_⟩
  · unfold writeFloat signText
    simp only [hn, hi, Bool.false_eq_true, if_false, String.toList_ofList]
    split <;> rfl
  · split
    · exact isFraction_point (isDigits_replicate 1) (by simp) (isDigits_replicate 1)
    · exact isFraction_write _

theorem ofText?_writeFloat {x : Float} (h : x.isFinite = true) :
    ∃ negative ds exponent,
      Numeral.ofText? (writeFloat x).toList = some (.fraction negative ds exponent) := by
  obtain ⟨text, ht, hf⟩ := toList_writeFloat h
  rw [ht]
  exact Numeral.ofText?_float (.mk (isSign_signText _) hf.shape)

theorem isAtomChar_writeFloat {x : Float} (h : x.isFinite = true) :
    ∀ c ∈ (writeFloat x).toList, isAtomChar c = true := by
  obtain ⟨text, ht, hf⟩ := toList_writeFloat h
  rw [ht]
  exact isAtomChar_signText hf.isAtomChar _

theorem writeFloat_ne_nil {x : Float} (h : x.isFinite = true) : (writeFloat x).toList ≠ [] := by
  obtain ⟨text, ht, hf⟩ := toList_writeFloat h
  rw [ht]
  exact List.append_ne_nil_of_right_ne_nil _ hf.shape.ne_nil

/-! ## Strings -/

theorem escaped_cases (c : Char) :
    (∃ d, Value.escaped c = ['\\', d] ∧ Literal.unescaped d = c) ∨
      Value.escaped c = [c] ∧ c ≠ '\\' ∧ c ≠ '\x22' := by
  unfold Value.escaped
  split
  · exact Or.inl ⟨_, rfl, rfl⟩
  · exact Or.inl ⟨_, rfl, rfl⟩
  · exact Or.inl ⟨_, rfl, rfl⟩
  · exact Or.inl ⟨_, rfl, rfl⟩
  · exact Or.inr ⟨rfl, by assumption, by assumption⟩

theorem unescape_escaped (cs : List Char) : Literal.unescape (cs.flatMap Value.escaped) = cs := by
  induction cs with
  | nil => rfl
  | cons c cs ih =>
    rw [List.flatMap_cons]
    rcases escaped_cases c with ⟨d, h, hd⟩ | ⟨h, h1, -⟩
    · rw [h]
      simp only [List.cons_append, List.nil_append]
      rw [Literal.unescape, hd, ih]
    · rw [h]
      simp only [List.cons_append, List.nil_append]
      rw [Literal.unescape, ih]
      exact fun _ _ hc _ => h1 hc

theorem ofQuoted_writeString (s : String) : Literal.ofQuoted (Value.writeString s).toList = s := by
  unfold Literal.ofQuoted Value.writeString
  rw [String.toList_ofList, List.tail_cons, List.dropLast_concat, unescape_escaped,
    String.ofList_toList]

theorem read_escaped (cs before : List Char) (ts : List Token) :
    Lexer.read ⟨.string before false, ts⟩ (cs.flatMap Value.escaped) =
      ⟨.string ((cs.flatMap Value.escaped).reverse ++ before) false, ts⟩ := by
  induction cs generalizing before with
  | nil => rfl
  | cons c cs ih =>
    rw [List.flatMap_cons, Lexer.read_append]
    have hc : Lexer.read ⟨.string before false, ts⟩ (Value.escaped c) =
        ⟨.string ((Value.escaped c).reverse ++ before) false, ts⟩ := by
      rcases escaped_cases c with ⟨d, h, -⟩ | ⟨h, h1, h2⟩
      · rw [h]
        rfl
      · rw [h]
        simp [Lexer.read, Lexer.step, h1, h2]
    rw [hc, ih]
    simp

theorem lexed_writeString (s : String) (ts : List Token) (rest : List Char) :
    Lexer.lexed ⟨.gap, ts⟩ ((Value.writeString s).toList ++ rest) =
      Lexer.lexed ⟨.gap, ⟨.string, (Value.writeString s).toList⟩ :: ts⟩ rest := by
  unfold Value.writeString
  rw [String.toList_ofList, List.cons_append, Lexer.lexed_quotationMark, List.append_assoc,
    Lexer.lexed_append, read_escaped, List.singleton_append, Lexer.lexed_string_end]
  simp

end Scheme
