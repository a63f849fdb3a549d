import Mathlib.Data.List.Induction
import Mathlib.Data.List.TakeWhile
import Mathlib.Data.Nat.Digits.Defs
import Scheme.Literal
import Scheme.Proofs.Lexing

/-!
# The words that are numerals

The words that are integers, floats and truth values; all others stand for themselves.
-/

namespace Scheme

open Scheme.Text

/-- No run of digits goes on with this text. -/
abbrev EndsDigits : List Char → Prop := FirstChar fun c => digit? c = none

theorem digitRun_of_endsDigits {rest : List Char} (h : EndsDigits rest) :
    digitRun rest = ([], rest) := by
  cases rest with
  | nil => rfl
  | cons c rest => simp only [digitRun, h c (by simp)]

namespace Numeral

/-! ## Digits -/

def AllDigits (s : List Char) : Prop := ∀ c ∈ s, (digit? c).isSome = true

/-- The values of the digits in a text. -/
def values (s : List Char) : List Nat := s.filterMap digit?

theorem length_values {s : List Char} (h : AllDigits s) : (values s).length = s.length :=
  List.filterMap_length_eq_length.2 h

theorem values_eq_nil_iff {s : List Char} (h : AllDigits s) : values s = [] ↔ s = [] := by
  rw [← List.length_eq_zero_iff, length_values h, List.length_eq_zero_iff]

theorem ofDigits_eq (ds : List Nat) : ofDigits ds = Nat.ofDigits 10 ds.reverse := by
  induction ds using List.reverseRecOn with
  | nil => rfl
  | append_singleton ds d ih =>
    rw [List.reverse_concat, Nat.ofDigits_cons, ← ih]
    simp only [ofDigits, List.foldl_append, List.foldl_cons, List.foldl_nil]
    omega

theorem digitRun_split {run rest : List Char} (hrun : AllDigits run) (hrest : EndsDigits rest) :
    digitRun (run ++ rest) = (values run, rest) := by
  induction run with
  | nil => exact digitRun_of_endsDigits hrest
  | cons c run ih =>
    obtain ⟨hc, hrun⟩ := List.forall_mem_cons.1 hrun
    obtain ⟨d, hd⟩ := Option.isSome_iff_exists.1 hc
    simp [digitRun, values, hd, ih hrun]

theorem digitRun_all {s : List Char} (h : AllDigits s) : digitRun s = (values s, []) := by
  simpa using digitRun_split h (firstChar_nil _)

theorem exists_run (s : List Char) :
    ∃ run rest, s = run ++ rest ∧ AllDigits run ∧ EndsDigits rest := by
  refine ⟨_, _, (List.takeWhile_append_dropWhile (p := fun c => (digit? c).isSome)).symm, ?_, ?_⟩
  · intro c hc
    exact List.mem_takeWhile_imp (p := fun c => (digit? c).isSome) hc
  · intro c hc
    simpa using firstChar_dropWhile (fun c => (digit? c).isSome) s c hc

/-! ## Signs -/

/-- An optional sign, and whether it is a minus sign. -/
inductive IsSign : List Char → Bool → Prop where
  | none : IsSign [] false
  | plus : IsSign ['+'] false
  | minus : IsSign ['-'] true

abbrev NoSign : List Char → Prop := FirstChar fun c => c ≠ '-' ∧ c ≠ '+'

theorem splitSign_append {sign rest : List Char} {negative : Bool} (h : IsSign sign negative)
    (hrest : NoSign rest) : splitSign (sign ++ rest) = (negative, rest) := by
  cases h with
  | none =>
    unfold splitSign
    split
    · rename_i heq
      rw [List.nil_append] at heq
      exact absurd rfl (hrest '-' (by simp [heq])).1
    · rename_i heq
      rw [List.nil_append] at heq
      exact absurd rfl (hrest '+' (by simp [heq])).2
    · rfl
  | plus => rfl
  | minus => rfl

theorem exists_sign (s : List Char) :
    ∃ sign negative rest, s = sign ++ rest ∧ IsSign sign negative ∧
      splitSign s = (negative, rest) := by
  unfold splitSign
  split
  · exact ⟨_, _, _, rfl, .minus, rfl⟩
  · exact ⟨_, _, _, rfl, .plus, rfl⟩
  · exact ⟨_, _, _, rfl, .none, rfl⟩

theorem noSign_of_digits {run : List Char} (h : AllDigits run) (hne : run ≠ []) (rest : List Char) :
    NoSign (run ++ rest) := by
  obtain ⟨c, run, rfl⟩ := List.exists_cons_of_ne_nil hne
  have hc := h c List.mem_cons_self
  apply firstChar_cons
  constructor <;>
  · rintro rfl
    exact absurd hc (by decide)

/-! ## The grammar -/

/-- An exponent with its mark and an optional sign. -/
inductive IsExponent : List Char → Prop where
  | mk {mark : Char} {sign digits : List Char} {negative : Bool} (marks : mark = 'e' ∨ mark = 'E')
      (signs : IsSign sign negative) (all : AllDigits digits) (nonempty : digits ≠ []) :
      IsExponent (mark :: (sign ++ digits))

/-- Digits with a point, an exponent or both. -/
inductive FractionText : List Char → Prop where
  | pointBehind {whole part exponent : List Char} (whole_all : AllDigits whole)
      (whole_nonempty : whole ≠ []) (part_all : AllDigits part)
      (optional : exponent = [] ∨ IsExponent exponent) :
      FractionText (whole ++ '.' :: (part ++ exponent))
  | pointBefore {part exponent : List Char} (part_all : AllDigits part) (part_nonempty : part ≠ [])
      (optional : exponent = [] ∨ IsExponent exponent) : FractionText ('.' :: (part ++ exponent))
  | noPoint {whole exponent : List Char} (whole_all : AllDigits whole) (whole_nonempty : whole ≠ [])
      (mandatory : IsExponent exponent) : FractionText (whole ++ exponent)

/-- The word writes this integer with so many digits. -/
inductive WritesInteger : List Char → Nat → Int → Prop where
  | mk {sign digits : List Char} {negative : Bool} (signs : IsSign sign negative)
      (all : AllDigits digits) (nonempty : digits ≠ []) :
      WritesInteger (sign ++ digits) digits.length
        (signed negative (Nat.ofDigits 10 (values digits).reverse))

inductive WritesFloat : List Char → Prop where
  | mk {sign fraction : List Char} {negative : Bool} (signs : IsSign sign negative)
      (shape : FractionText fraction) : WritesFloat (sign ++ fraction)

theorem FractionText.ne_nil {s : List Char} (h : FractionText s) : s ≠ [] := by
  cases h <;> simp_all

/-! ## Exponents -/

theorem exponent?_isSome_iff {s : List Char} : (exponent? s).isSome = true ↔ IsExponent s := by
  constructor
  · intro h
    unfold exponent? at h
    split at h
    · rename_i mark rest
      split at h
      · rename_i hmark
        obtain ⟨sign, negative, rest, rfl, hsign, hsplit⟩ := exists_sign rest
        obtain ⟨run, rest, rfl, hrun, hrest⟩ := exists_run rest
        rw [hsplit] at h
        simp only [digitRun_split hrun hrest] at h
        split at h
        · rename_i hvalues
          obtain ⟨hvalues, rfl⟩ := Prod.mk.inj hvalues
          rw [List.append_nil]
          refine .mk hmark hsign hrun ?_
          rintro rfl
          cases hvalues
        · cases h
      · cases h
    · cases h
  · rintro ⟨hmark, hsign, hdigits, hne⟩
    have hno := noSign_of_digits hdigits hne []
    rw [List.append_nil] at hno
    simp only [exponent?, if_pos hmark, splitSign_append hsign hno, digitRun_all hdigits]
    have hvalues := (values_eq_nil_iff hdigits).not.2 hne
    obtain ⟨d, ds, hds⟩ := List.exists_cons_of_ne_nil hvalues
    rw [hds]
    rfl

theorem optionalExponent?_isSome_iff {s : List Char} :
    (optionalExponent? s).isSome = true ↔ s = [] ∨ IsExponent s := by
  unfold optionalExponent?
  split
  · simp
  · rename_i hne
    rw [exponent?_isSome_iff, or_iff_right hne]

theorem endsDigits_exponent {s : List Char} (h : s = [] ∨ IsExponent s) : EndsDigits s := by
  obtain rfl | ⟨rfl | rfl, -, -, -⟩ := h
  · exact firstChar_nil _
  · exact firstChar_cons (by decide) _
  · exact firstChar_cons (by decide) _

/-! ## Numerals -/

theorem unsigned?_digits {s : List Char} (h : AllDigits s) (hne : s ≠ []) (negative : Bool) :
    unsigned? negative s = some (.integer negative (values s)) := by
  have hvalues := (values_eq_nil_iff h).not.2 hne
  simp [unsigned?, digitRun_all h, hvalues]

theorem unsigned?_point {whole part exponent : List Char} (hwhole : AllDigits whole)
    (hpart : AllDigits part) (hexponent : EndsDigits exponent) (negative : Bool) :
    unsigned? negative (whole ++ '.' :: (part ++ exponent)) =
      if whole = [] ∧ part = [] then none
      else (optionalExponent? exponent).map fun e =>
        .fraction negative (values whole ++ values part) (e - (values part).length) := by
  have hpoint : EndsDigits ('.' :: (part ++ exponent)) := firstChar_cons (by decide) _
  simp only [unsigned?, digitRun_split hwhole hpoint, digitRun_split hpart hexponent,
    Bool.and_eq_true, List.isEmpty_iff, values_eq_nil_iff hwhole, values_eq_nil_iff hpart]

theorem unsigned?_noPoint {whole : List Char} {c : Char} {rest : List Char}
    (hwhole : AllDigits whole) (hrest : EndsDigits (c :: rest)) (hc : c ≠ '.') (negative : Bool) :
    unsigned? negative (whole ++ c :: rest) =
      if whole = [] then none
      else (exponent? (c :: rest)).map fun e => .fraction negative (values whole) e := by
  simp only [unsigned?, digitRun_split hwhole hrest]
  split
  · rename_i h
    cases h
  · rename_i h
    exact absurd (List.cons.inj h).1 hc
  · simp only [List.isEmpty_iff, values_eq_nil_iff hwhole]

theorem unsigned?_fraction {s : List Char} (h : FractionText s) (negative : Bool) :
    ∃ ds e, unsigned? negative s = some (.fraction negative ds e) := by
  cases h with
  | pointBehind hwhole hne hpart hoptional =>
    obtain ⟨e, he⟩ := Option.isSome_iff_exists.1 (optionalExponent?_isSome_iff.2 hoptional)
    rw [unsigned?_point hwhole hpart (endsDigits_exponent hoptional), if_neg (by simp [hne]), he]
    exact ⟨_, _, rfl⟩
  | @pointBefore part exponent hpart hne hoptional =>
    obtain ⟨e, he⟩ := Option.isSome_iff_exists.1 (optionalExponent?_isSome_iff.2 hoptional)
    have hnone : AllDigits [] := by simp [AllDigits]
    have hpoint := unsigned?_point hnone hpart (endsDigits_exponent hoptional) negative
    rw [List.nil_append, if_neg (by simp [hne]), he] at hpoint
    exact ⟨_, _, hpoint⟩
  | noPoint hwhole hne hmandatory =>
    obtain ⟨e, he⟩ := Option.isSome_iff_exists.1 (exponent?_isSome_iff.2 hmandatory)
    have hends := endsDigits_exponent (.inr hmandatory)
    obtain @⟨mark, _, _, _, hmark, -, -, -⟩ := hmandatory
    have hpoint : mark ≠ '.' := by
      rintro rfl
      simp at hmark
    rw [unsigned?_noPoint hwhole hends hpoint, if_neg hne, he]
    exact ⟨_, _, rfl⟩

theorem unsigned?_cases (s : List Char) (negative : Bool) :
    (AllDigits s ∧ s ≠ []) ∨ FractionText s ∨ unsigned? negative s = none := by
  obtain ⟨whole, rest, rfl, hwhole, hrest⟩ := exists_run s
  rcases rest with _ | ⟨c, rest⟩
  · rw [List.append_nil]
    by_cases hne : whole = []
    · subst hne
      exact Or.inr (Or.inr rfl)
    · exact Or.inl ⟨hwhole, hne⟩
  by_cases hc : c = '.'
  · subst hc
    obtain ⟨part, exponent, rfl, hpart, hexponent⟩ := exists_run rest
    rw [unsigned?_point hwhole hpart hexponent]
    by_cases hempty : whole = [] ∧ part = []
    · exact Or.inr (Or.inr (if_pos hempty))
    rw [if_neg hempty]
    cases he : optionalExponent? exponent with
    | none => exact Or.inr (Or.inr rfl)
    | some e =>
      have hoptional := optionalExponent?_isSome_iff.1 (Option.isSome_iff_exists.2 ⟨e, he⟩)
      refine Or.inr (Or.inl ?_)
      by_cases hne : whole = []
      · subst hne
        exact .pointBefore hpart (by simpa using hempty) hoptional
      · exact .pointBehind hwhole hne hpart hoptional
  · rw [unsigned?_noPoint hwhole hrest hc]
    by_cases hne : whole = []
    · exact Or.inr (Or.inr (if_pos hne))
    rw [if_neg hne]
    cases he : exponent? (c :: rest) with
    | none => exact Or.inr (Or.inr rfl)
    | some e =>
      have hmandatory := exponent?_isSome_iff.1 (Option.isSome_iff_exists.2 ⟨e, he⟩)
      exact Or.inr (Or.inl (.noPoint hwhole hne hmandatory))

theorem noSign_of_fraction {s : List Char} (h : FractionText s) : NoSign s := by
  cases h with
  | pointBehind hwhole hne => exact noSign_of_digits hwhole hne _
  | pointBefore => exact firstChar_cons (by decide) _
  | noPoint hwhole hne => exact noSign_of_digits hwhole hne _

theorem ofText?_integer {sign digits : List Char} {negative : Bool} (hsign : IsSign sign negative)
    (hdigits : AllDigits digits) (hne : digits ≠ []) :
    ofText? (sign ++ digits) = some (.integer negative (values digits)) := by
  have hno := noSign_of_digits hdigits hne []
  rw [List.append_nil] at hno
  rw [ofText?, splitSign_append hsign hno]
  exact unsigned?_digits hdigits hne negative

theorem ofText?_float {w : List Char} (h : WritesFloat w) :
    ∃ negative ds e, ofText? w = some (.fraction negative ds e) := by
  obtain ⟨hsign, hshape⟩ := h
  rw [ofText?, splitSign_append hsign (noSign_of_fraction hshape)]
  exact ⟨_, unsigned?_fraction hshape _⟩

theorem ofText?_cases (w : List Char) :
    (∃ count n, WritesInteger w count n) ∨ WritesFloat w ∨ ofText? w = none := by
  obtain ⟨sign, negative, rest, rfl, hsign, hsplit⟩ := exists_sign w
  rw [ofText?, hsplit]
  obtain ⟨hdigits, hne⟩ | hfraction | hnone := unsigned?_cases rest negative
  · exact Or.inl ⟨_, _, .mk hsign hdigits hne⟩
  · exact Or.inr (Or.inl (.mk hsign hfraction))
  · exact Or.inr (Or.inr hnone)

end Numeral

/-! ## Words that are numerals -/

theorem ofText?_hash (rest : List Char) : Numeral.ofText? ('#' :: rest) = none := by
  have hs : Numeral.splitSign ('#' :: rest) = (false, '#' :: rest) := rfl
  have hd : digitRun ('#' :: rest) = ([], '#' :: rest) :=
    digitRun_of_endsDigits (firstChar_cons (by decide) rest)
  simp [Numeral.ofText?, Numeral.unsigned?, hs, hd]

theorem ofWord_integer {word : List Char} {negative : Bool} {ds : List Nat}
    (h : Numeral.ofText? word = some (.integer negative ds)) :
    Literal.ofWord word =
      if Literal.maxDigits < ds.length then .error (.integerTooLong word.length)
      else .ok (.num (.int (Numeral.signed negative (ofDigits ds)))) := by
  unfold Literal.ofWord
  split
  · simp [ofText?_hash] at h
  · simp [ofText?_hash] at h
  · rw [h]

theorem ofWord_fraction {word : List Char} {negative : Bool} {ds : List Nat} {exponent : Int}
    (h : Numeral.ofText? word = some (.fraction negative ds exponent)) :
    Literal.ofWord word = .ok (.num (.float (Numeral.toFloat negative ds exponent))) := by
  unfold Literal.ofWord
  split
  · simp [ofText?_hash] at h
  · simp [ofText?_hash] at h
  · rw [h]

/-! ## Words -/

namespace Numeral

theorem ofWord_writesInteger {w : List Char} {count : Nat} {n : Int} (h : WritesInteger w count n) :
    Literal.ofWord w =
      if 4300 < count then .error (.integerTooLong w.length) else .ok (.num (.int n)) := by
  obtain ⟨hsign, hdigits, hne⟩ := h
  rw [ofWord_integer (ofText?_integer hsign hdigits hne), ofDigits_eq, length_values hdigits]
  rfl

theorem ofWord_writesFloat {w : List Char} (h : WritesFloat w) :
    ∃ x, Literal.ofWord w = .ok (.num (.float x)) := by
  obtain ⟨negative, ds, e, htext⟩ := ofText?_float h
  exact ⟨_, ofWord_fraction htext⟩

/-- What a word of each kind stands for. -/
inductive Stands (w : List Char) : Except Error Value → Prop where
  | truth (b : Bool) (spelled : w = ['#', if b then 't' else 'f']) : Stands w (.ok (.bool b))
  | integer {count : Nat} {n : Int} (writes : WritesInteger w count n) (short : count ≤ 4300) :
      Stands w (.ok (.num (.int n)))
  | tooLong {count : Nat} {n : Int} (writes : WritesInteger w count n) (long : count > 4300) :
      Stands w (.error (.integerTooLong w.length))
  | float {x : Float} (writes : WritesFloat w) : Stands w (.ok (.num (.float x)))
  | symbol {x : Symbol} (named : x.name = String.ofList w) : Stands w (.ok (.sym x))

theorem stands_ofWord {w : List Char} (hw : w ≠ []) : Stands w (Literal.ofWord w) := by
  obtain ⟨count, n, h⟩ | h | hnone := ofText?_cases w
  · rw [ofWord_writesInteger h]
    split
    · exact .tooLong h ‹_›
    · exact .integer h (Nat.le_of_not_lt ‹_›)
  · obtain ⟨x, hx⟩ := ofWord_writesFloat h
    rw [hx]
    exact .float h
  · have hname : String.ofList w ≠ "" := by simpa [String.ofList_eq_empty_iff] using hw
    unfold Literal.ofWord
    split
    · exact .truth true rfl
    · exact .truth false rfl
    · rw [hnone]
      simp only [Symbol.ofName?, dif_neg hname]
      exact .symbol rfl

/-- **Which words are numerals.** -/
theorem ofWord_grammar (w : List Char) (hw : w ≠ []) :
    (∀ n, Literal.ofWord w = .ok (.num (.int n)) ↔ ∃ count ≤ 4300, WritesInteger w count n) ∧
    ((∃ e, Literal.ofWord w = .error e) ↔ ∃ count > 4300, ∃ n, WritesInteger w count n) ∧
    (∀ e, Literal.ofWord w = .error e →
      e = .integerTooLong w.length ∧ e.kind? = some .malformed) ∧
    ((∃ x, Literal.ofWord w = .ok (.num (.float x))) ↔ WritesFloat w) ∧
    (∀ b : Bool, Literal.ofWord w = .ok (.bool b) ↔ w = ['#', if b then 't' else 'f']) ∧
    ((∀ b : Bool, w ≠ ['#', if b then 't' else 'f']) → (∀ count n, ¬ WritesInteger w count n) →
      ¬ WritesFloat w → ∃ x, Literal.ofWord w = .ok (.sym x) ∧ x.name = String.ofList w) := by
  have hstands := stands_ofWord hw
  refine ⟨?_, ?_, ?_, ?_, ?_, ?_⟩
  · intro n
    constructor
    · intro h
      rw [h] at hstands
      obtain _ | ⟨hwrites, hshort⟩ := hstands
      exact ⟨_, hshort, hwrites⟩
    · rintro ⟨count, hshort, hwrites⟩
      rw [ofWord_writesInteger hwrites, if_neg (by omega)]
  · constructor
    · rintro ⟨e, h⟩
      rw [h] at hstands
      obtain _ | _ | ⟨hwrites, hlong⟩ := hstands
      exact ⟨_, hlong, _, hwrites⟩
    · rintro ⟨count, hlong, n, hwrites⟩
      exact ⟨_, by rw [ofWord_writesInteger hwrites, if_pos hlong]⟩
  · intro e h
    rw [h] at hstands
    cases hstands
    exact ⟨rfl, rfl⟩
  · constructor
    · rintro ⟨x, h⟩
      rw [h] at hstands
      cases hstands
      assumption
    · exact ofWord_writesFloat
  · intro b
    constructor
    · intro h
      rw [h] at hstands
      cases hstands
      assumption
    · rintro rfl
      cases b <;> rfl
  · intro htruth hinteger hfloat
    generalize Literal.ofWord w = result at hstands
    cases hstands with
    | truth b spelled => exact absurd spelled (htruth b)
    | integer writes => exact absurd writes (hinteger _ _)
    | tooLong writes => exact absurd writes (hinteger _ _)
    | float writes => exact absurd writes hfloat
    | symbol named => exact ⟨_, rfl, named⟩

theorem ofWord_grammar_borders :
    Literal.ofWord ['+', '1', '\u0662'] = .ok (.num (.int 12)) ∧
      (∃ x, Literal.ofWord ['-', '.', '5'] = .ok (.num (.float x))) ∧
      ¬ WritesFloat ['1', '.', 'e', '+'] := by
  have hdigits : AllDigits ['1', '\u0662'] := List.all_eq_true.1 (by decide)
  have htwelve : WritesInteger ['+', '1', '\u0662'] 2 12 := .mk .plus hdigits (by simp)
  have hfive : AllDigits ['5'] := List.all_eq_true.1 (by decide)
  have hhalf : WritesFloat ['-', '.', '5'] :=
    .mk .minus (.pointBefore hfive (by simp) (.inl rfl))
  refine ⟨?_, ?_, ?_⟩
  · exact ((ofWord_grammar _ (by simp)).1 12).2 ⟨2, by omega, htwelve⟩
  · exact (ofWord_grammar _ (by simp)).2.2.2.1.2 hhalf
  · rw [← (ofWord_grammar ['1', '.', 'e', '+'] (by simp)).2.2.2.1]
    rintro ⟨x, hx⟩
    have hsymbol : Literal.ofWord ['1', '.', 'e', '+'] = .ok (.sym ⟨"1.e+", by decide⟩) := by rfl
    rw [hsymbol] at hx
    cases hx

end Numeral

end Scheme
