import Scheme.Proofs.Answers
import Scheme.Proofs.Quotients

/-!
# The arguments of numeric primitives

A numeric primitive counts its arguments, then looks at their kinds, and only then computes.
-/

namespace Scheme

namespace Primitive

/-- How many arguments a numeric primitive can have. -/
def CanHave : Primitive → Nat → Prop
  | .sub, n | .div, n => 1 ≤ n
  | .compare _, n => 2 ≤ n
  | .pow, n | .expt, n => n = 2
  | .math _, n => n = 1
  | _, _ => True

theorem admits_iff {p : Primitive} (h : p.isNumeric = true) (n : Nat) :
    p.arity.admits n = true ↔ p.CanHave n := by
  cases p with
  | add | sub | mul | div | pow | expt | compare | math => simp [arity, Arity.admits, CanHave]
  | _ => cases h

theorem kind?_arityError (p : Primitive) (given : Nat) :
    (p.arityError given).kind? = some .arity := by
  unfold arityError
  split <;> rfl

theorem numbers_of_first (describe : ClosureId → String) (room : Nat) (name : String)
    (ns : List Number) {v : Value} (hv : v.number? = none) (rest : List Value) :
    numbers describe room name (ns.map .num ++ v :: rest) =
      .error (if v.nesting ≤ room then .notANumber name (v.write describe)
        else .depthExceeded) := by
  induction ns with
  | nil =>
    simp only [List.map_nil, List.nil_append, numbers, hv, Value.visit_eq]
    split <;> rfl
  | cons n ns ih =>
    simp only [List.map_cons, List.cons_append, numbers, Value.number?]
    rw [ih]
    rfl

theorem split_arguments (args : List Value) :
    (∃ ns : List Number, args = ns.map .num) ∨
      ∃ (ns : List Number) (v : Value) (rest : List Value), args = ns.map .num ++ v :: rest ∧
        v.number? = none := by
  induction args with
  | nil => exact Or.inl ⟨[], rfl⟩
  | cons v args ih =>
    cases v with
    | num n =>
      rcases ih with ⟨ns, rfl⟩ | ⟨ns, w, rest, rfl, hw⟩
      · exact Or.inl ⟨n :: ns, rfl⟩
      · exact Or.inr ⟨n :: ns, w, rest, rfl, hw⟩
    | _ => exact Or.inr ⟨[], _, args, rfl, rfl⟩

theorem number?_eq_none_iff {v : Value} : v.number? = none ↔ ∀ n, v ≠ .num n := by
  cases v <;> simp [Value.number?]

/-! ## What the computation can be at fault for -/

theorem num_map_error {r : Except Error Number} {e : Error} (h : Value.num <$> r = .error e) :
    r = .error e := by
  cases r with
  | ok n => cases h
  | error e' =>
    cases h
    rfl

theorem compute_error {p : Primitive} {ns : List Number} {e : Error} (hp : p.isNumeric = true)
    (hcount : p.CanHave ns.length) (h : p.compute ns = .error e) : e.IsUndefined := by
  cases p with
  | add => exact accumulate_error (num_map_error h)
  | sub =>
    match ns with
    | [] => cases hcount
    | [_] => cases h
    | _ :: _ :: _ => exact accumulate_error (num_map_error h)
  | mul => exact accumulate_error (num_map_error h)
  | div =>
    match ns with
    | [] => cases hcount
    | [_] => exact divide_error (num_map_error h)
    | _ :: _ :: _ => exact foldlM_error (fun _ _ _ => divide_error) (num_map_error h)
  | pow | expt =>
    match ns with
    | [_, _] => exact power_error (num_map_error h)
  | compare => cases h
  | math f =>
    match ns with
    | [a] =>
      simp only [compute] at h
      split at h
      · cases h
      · cases h
        exact Or.inr rfl
  | _ => cases hp

/-! ## Calls -/

variable (describe : ClosureId → String) (room : Nat) {p : Primitive} {args : List Value}

theorem callNumeric_of_count (hp : p.isNumeric = true) (h : ¬ p.CanHave args.length) :
    p.callNumeric describe room args = .error (p.arityError args.length) := by
  have hcheck : p.checkArity args.length = .error (p.arityError args.length) :=
    if_neg (mt (admits_iff hp _).1 h)
  unfold callNumeric
  rw [hcheck]
  rfl

theorem callNumeric_of_first (hp : p.isNumeric = true) (h : p.CanHave args.length)
    {ns : List Number} {v : Value} {rest : List Value} (hargs : args = ns.map .num ++ v :: rest)
    (hv : v.number? = none) :
    p.callNumeric describe room args =
      .error (if v.nesting ≤ room then .notANumber p.reportedName (v.write describe)
        else .depthExceeded) := by
  have hcheck : p.checkArity args.length = .ok () := if_pos ((admits_iff hp _).2 h)
  unfold callNumeric
  rw [hcheck, hargs, numbers_of_first describe room _ ns hv rest]
  rfl

theorem callNumeric_numbers_error (hp : p.isNumeric = true) {ns : List Number} {e : Error}
    (hcount : p.CanHave (ns.map Value.num).length)
    (h : p.callNumeric describe room (ns.map .num) = .error e) : e.IsUndefined := by
  rw [List.length_map] at hcount
  rw [callNumeric_numbers describe room ((admits_iff hp _).2 hcount)] at h
  exact compute_error hp hcount h

theorem callNumeric_arity_iff (hp : p.isNumeric = true) :
    (∃ e, p.callNumeric describe room args = .error e ∧ e.kind? = some .arity) ↔
      ¬ p.CanHave args.length := by
  by_cases hcount : p.CanHave args.length
  · refine iff_of_false ?_ (not_not_intro hcount)
    rintro ⟨e, he, hkind⟩
    rcases split_arguments args with ⟨ns, rfl⟩ | ⟨ns, v, rest, hargs, hv⟩
    · rcases callNumeric_numbers_error describe room hp hcount he with h | h <;> simp [hkind] at h
    · rw [callNumeric_of_first describe room hp hcount hargs hv] at he
      cases he
      split at hkind <;> cases hkind
  · rw [callNumeric_of_count describe room hp hcount]
    exact iff_of_true ⟨_, rfl, p.kind?_arityError _⟩ hcount

theorem callNumeric_wrongType_iff (hp : p.isNumeric = true) (hcount : p.CanHave args.length) :
    (∃ e, p.callNumeric describe room args = .error e ∧
        (e.kind? = some .wrongType ∨ e = .depthExceeded)) ↔ ∃ v ∈ args, ∀ n, v ≠ .num n := by
  rcases split_arguments args with ⟨ns, rfl⟩ | ⟨ns, v, rest, hargs, hv⟩
  · refine iff_of_false ?_ ?_
    · rintro ⟨e, he, hkind⟩
      rcases callNumeric_numbers_error describe room hp hcount he with h | h <;>
      · rcases hkind with hkind | rfl
        · simp [hkind] at h
        · cases h
    · rintro ⟨v, hv, hnone⟩
      obtain ⟨n, -, rfl⟩ := List.mem_map.1 hv
      exact hnone n rfl
  · rw [callNumeric_of_first describe room hp hcount hargs hv]
    refine iff_of_true ⟨_, rfl, ?_⟩ ⟨v, by simp [hargs], number?_eq_none_iff.1 hv⟩
    split
    · exact Or.inl rfl
    · exact Or.inr rfl

end Primitive

namespace Eval

/-- The computation ends in an error of this kind. -/
def FailsWith (outcome : EStateM.Result Error Store Value) (kind : ErrorKind) : Prop :=
  ∃ e t, outcome = .error e t ∧ e.kind? = some kind

theorem failsWith_ofExcept_iff {r : Except Error Value} {s : Store} {kind : ErrorKind} :
    FailsWith (ofExcept r s) kind ↔ ∃ e, r = .error e ∧ e.kind? = some kind := by
  constructor
  · rintro ⟨e, t, h, hkind⟩
    cases r with
    | ok v => cases h
    | error e' =>
      cases h
      exact ⟨e, rfl, hkind⟩
  · rintro ⟨e, rfl, hkind⟩
    exact ⟨e, s, rfl, hkind⟩

theorem ofExcept_eq_error_iff {r : Except Error Value} {s : Store} {e : Error} :
    ofExcept r s = .error e s ↔ r = .error e := by
  cases r with
  | ok v => exact iff_of_false (fun h => nomatch h) fun h => nomatch h
  | error e' =>
    constructor <;>
    · intro h
      cases h
      rfl

/-- **Arguments are checked first.** -/
theorem run_checks {p : Primitive} (hp : p.isNumeric = true) (args : List Value) (depth : Nat)
    (s : Store) :
    let outcome := run (depth + 1) (.call (.primitive p) args) s
    (FailsWith outcome .arity ↔ ¬ p.CanHave args.length) ∧
    (p.CanHave args.length →
      (FailsWith outcome .wrongType ∨ outcome = .error .depthExceeded s ↔
        ∃ v ∈ args, ∀ n, v ≠ .num n) ∧
      ∀ (ns : List Number) v rest, args = ns.map .num ++ v :: rest → (∀ n, v ≠ .num n) →
        (v.nesting ≤ depth → ∃ e, outcome = .error e s ∧ e.kind? = some .wrongType ∧
          e.message = "All arguments to " ++ p.reportedName ++ " must be numbers, got " ++
            s.write v) ∧
        (depth < v.nesting → outcome = .error .depthExceeded s)) := by
  intro outcome
  have houtcome : outcome = ofExcept (p.callNumeric s.describe depth args) s :=
    run_numeric hp depth args s
  rw [houtcome, failsWith_ofExcept_iff, failsWith_ofExcept_iff]
  refine ⟨Primitive.callNumeric_arity_iff s.describe depth hp, fun hcount => ⟨?_, ?_⟩⟩
  · rw [← Primitive.callNumeric_wrongType_iff s.describe depth hp hcount, ofExcept_eq_error_iff]
    simp only [and_or_left, exists_or, exists_eq_right]
  · intro ns v rest hargs hv
    rw [Primitive.callNumeric_of_first s.describe depth hp hcount hargs
      (Primitive.number?_eq_none_iff.2 hv)]
    constructor
    · intro hnesting
      rw [if_pos hnesting]
      exact ⟨_, rfl, rfl, rfl⟩
    · intro hnesting
      rw [if_neg (Nat.not_le.2 hnesting)]
      rfl

theorem run_checks_zeroDivisor :
    Primitive.div.isNumeric = true ∧
      let args : List Value := [.integer 1, .integer 0, .bool true, .str "a"]
      Primitive.div.CanHave args.length ∧
        ∃ e, run 1 (.call (.primitive .div) args) {} = .error e {} ∧
          e.kind? = some .wrongType ∧ e.message = "All arguments to / must be numbers, got #t" := by
  have hcount : Primitive.div.CanHave 4 := by simp [Primitive.CanHave]
  have hchecks := run_checks (p := .div) rfl
    [.integer 1, .integer 0, .bool true, .str "a"] 0 {}
  obtain ⟨e, houtcome, hkind, hmessage⟩ :=
    ((hchecks.2 hcount).2 [.int 1, .int 0] (.bool true) [.str "a"] rfl (by simp)).1 (Nat.le_refl 0)
  exact ⟨rfl, hcount, e, houtcome, hkind, hmessage⟩

end Eval

end Scheme
