import Scheme.Primitive.Numeric
import Scheme.Value.Code

/-!
# Failures underneath

Where an operation may fail on its own terms, checks and handlers stand around it.
-/

namespace Scheme

/-- How an operation underneath can fail. -/
inductive Failure where
  /-- a function of floats without a result, or an integer that is too large for a float -/
  | math (fault : MathFault)
  | divisionByZero
  /-- more digits than can be read or written at once -/
  | tooManyDigits
  /-- a text that writes no float -/
  | noFloat
  /-- a symbol without a name -/
  | noName
  /-- a source that nothing is found at the front of -/
  | noPiece

/-- What stops a computation: an error that is meant, or a failure that nothing handled. -/
inductive Raised where
  | error (e : Error)
  | failure (f : Failure)

abbrev Risky (α : Type) := Except Raised α

namespace Risky

variable {α β : Type}

def lift (r : Except Error α) : Risky α := r.mapError .error

def fail (f : Failure) : Risky α := .error (.failure f)

/-- Reports the failures that the handler knows as errors and lets the others pass. -/
def handle (known : Failure → Option Error) : Risky α → Risky α
  | .error (.failure f) =>
    match known f with
    | some e => .error (.error e)
    | none => .error (.failure f)
  | r => r

theorem handle_bind (known : Failure → Option Error) (r : Risky α) (f : α → Risky β) :
    handle known (r >>= f) = handle known r >>= fun a => handle known (f a) := by
  cases r with
  | ok a => rfl
  | error raised =>
    cases raised with
    | error e => rfl
    | failure failure =>
      simp only [bind, Except.bind, handle]
      cases known failure <;> rfl

theorem lift_bind (r : Except Error α) (f : α → Except Error β) :
    lift (r >>= f) = lift r >>= fun a => lift (f a) := by
  cases r <;> rfl

theorem handle_map (known : Failure → Option Error) (f : α → β) (r : Risky α) :
    handle known (f <$> r) = f <$> handle known r :=
  handle_bind known r fun a => .ok (f a)

theorem lift_map (f : α → β) (r : Except Error α) : lift (f <$> r) = f <$> lift r :=
  lift_bind r fun a => .ok (f a)

theorem handle_foldlM {known : Failure → Option Error} {op : α → β → Risky α}
    {op' : α → β → Except Error α} (h : ∀ a b, handle known (op a b) = lift (op' a b))
    (bs : List β) (a : α) : handle known (bs.foldlM op a) = lift (bs.foldlM op' a) := by
  induction bs generalizing a with
  | nil => rfl
  | cons b bs ih =>
    rw [List.foldlM_cons, List.foldlM_cons, handle_bind, lift_bind, h]
    simp only [ih]

/-! ## Literals -/

def readInteger (negative : Bool) (digits : List Nat) : Risky Int :=
  if Literal.maxDigits < digits.length then fail .tooManyDigits
  else .ok (Numeral.signed negative (Text.ofDigits digits))

def afterPoint : List Char → List Nat × List Char
  | '.' :: rest => Text.digitRun rest
  | rest => ([], rest)

/-- The decimal that a text writes. Neither a point nor an exponent need be there. -/
def decimal? (s : List Char) : Option (Bool × List Nat × Int) :=
  let (negative, rest) := Numeral.splitSign s
  let (whole, rest) := Text.digitRun rest
  let (part, rest) := afterPoint rest
  if whole.isEmpty && part.isEmpty then none
  else (Numeral.optionalExponent? rest).map fun e => (negative, whole ++ part, e - part.length)

def readFloat (word : List Char) : Risky Float :=
  match decimal? word with
  | some (negative, digits, exponent) => .ok (Numeral.toFloat negative digits exponent)
  | none => fail .noFloat

def symbol (name : String) : Risky Symbol :=
  match Symbol.ofName? name with
  | some x => .ok x
  | none => fail .noName

def tooLong (word : List Char) : Failure → Option Error
  | .tooManyDigits => some (.integerTooLong word.length)
  | _ => none

def ofWord (word : List Char) : Risky Value :=
  match word with
  | ['#', 't'] => .ok (.bool true)
  | ['#', 'f'] => .ok (.bool false)
  | _ =>
    match Numeral.ofText? word with
    | some (.integer negative digits) =>
      handle (tooLong word) ((Value.num ∘ .int) <$> readInteger negative digits)
    | some (.fraction ..) => (Value.num ∘ .float) <$> readFloat word
    | none => Value.sym <$> symbol (String.ofList word)

theorem decimal?_of_fraction {word : List Char} {negative : Bool} {digits : List Nat}
    {exponent : Int} (h : Numeral.ofText? word = some (.fraction negative digits exponent)) :
    decimal? word = some (negative, digits, exponent) := by
  unfold Numeral.ofText? Numeral.unsigned? at h
  unfold decimal?
  simp only at h ⊢
  generalize Text.digitRun (Numeral.splitSign word).2 = run at h ⊢
  obtain ⟨whole, rest⟩ := run
  simp only at h ⊢
  split at h
  · split at h <;> cases h
  · split at h
    · cases h
    · rename_i hdigits
      obtain ⟨e, he, heq⟩ := Option.map_eq_some_iff.1 h
      cases heq
      simp only [afterPoint, if_neg hdigits, he]
      rfl
  · rename_i hend hpoint
    -- Without a point there is an exponent, or the word would end here.
    split at h
    · cases h
    · rename_i hdigits
      obtain ⟨e, he, heq⟩ := Option.map_eq_some_iff.1 h
      cases heq
      have hpart : afterPoint rest = ([], rest) := by
        unfold afterPoint
        split
        · exact absurd rfl (hpoint _)
        · rfl
      have hexponent : Numeral.optionalExponent? rest = some exponent := by
        unfold Numeral.optionalExponent?
        split
        · exact absurd rfl hend
        · exact he
      simp [hpart, hexponent, hdigits]

theorem ofWord_eq {word : List Char} (h : word ≠ []) :
    ofWord word = lift (Literal.ofWord word) := by
  unfold ofWord Literal.ofWord
  split
  · rfl
  · rfl
  · cases hnumeral : Numeral.ofText? word with
    | none =>
      simp only [symbol]
      cases hname : Symbol.ofName? (String.ofList word) with
      | some x => rfl
      | none =>
        rw [Symbol.ofName?_eq_none_iff, String.ofList_eq_empty_iff] at hname
        exact absurd hname h
    | some numeral =>
      cases numeral with
      | integer negative digits =>
        simp only [readInteger]
        split <;> rfl
      | fraction negative digits exponent =>
        simp only [readFloat, decimal?_of_fraction hnumeral]
        rfl

/-! ## Written integers -/

def digits (n : Int) : Risky String :=
  if n.natAbs < Nat.pow 10 Literal.maxDigits then .ok (Scheme.writeInt n) else fail .tooManyDigits

/-- An integer that is too long is written with the limit lifted. -/
def writeInt (n : Int) : Risky String :=
  match digits n with
  | .error (.failure .tooManyDigits) => .ok (Scheme.writeInt n)
  | r => r

theorem writeInt_eq (n : Int) : writeInt n = .ok (Scheme.writeInt n) := by
  unfold writeInt digits
  by_cases hshort : n.natAbs < Nat.pow 10 Literal.maxDigits
  · simp only [if_pos hshort]
  · simp only [if_neg hshort, fail]

theorem digits_of_code {Allowed : Symbol → Prop} {e : Value} (h : e.Code Allowed) {n : Int}
    (hn : (Value.num (.int n)).Occurs e) : digits n = .ok (Scheme.writeInt n) := by
  have hcode := h.of_occurs hn
  cases hcode with
  | num short =>
    have hshort : n.natAbs < Nat.pow 10 Literal.maxDigits := short
    unfold digits
    rw [if_pos hshort]

/-! ## Numbers -/

def combine (op : Number → Number → Option Number) (a b : Number) : Risky Number :=
  match op a b with
  | some n => .ok n
  | none => fail (.math .tooLarge)

def quotient (a b : Number) : Risky Number :=
  if b.isZero then fail .divisionByZero else combine Number.quotient? a b

def divide (a b : Number) : Risky Number :=
  if b.isZero then .error (.error .divisionByZero) else quotient a b

def floatPower (base exponent : Number) : Risky Number :=
  match base.toFloat?, exponent.toFloat? with
  | some x, some y =>
    match Scheme.floatPower x y with
    | .ok z => .ok (.float z)
    | .error fault => fail (.math fault)
  | _, _ => fail (.math .tooLarge)

def applyFunction (f : MathFunction) (a : Number) : Risky Number :=
  match f.apply a with
  | .ok x => .ok (.float x)
  | .error fault => fail (.math fault)

/-- Sums, differences, products and quotients report what is too large, and nothing else. -/
def tooLarge (name : String) : Failure → Option Error
  | .math .domain => none
  | .math fault => some (.noResult name fault)
  | _ => none

/-- Powers and functions also report what is outside a domain. -/
def noResult (name : String) : Failure → Option Error
  | .math fault => some (.noResult name fault)
  | _ => none

def inexactPower (base exponent : Number) : Risky Number :=
  if base.isZero && exponent.isNegative then .error (.error .zeroToNegativePower)
  else handle (noResult (Primitive.name .pow)) (floatPower base exponent)

def power (base exponent : Number) : Risky Number :=
  match base, exponent with
  | .int b, .int e =>
    if 0 ≤ e then .ok (.int (Number.intPow b e.toNat)) else inexactPower base exponent
  | base, exponent => inexactPower base exponent

def compute : Primitive → List Number → Risky Value
  | .add, ns =>
    handle (tooLarge (Primitive.name .add)) (.num <$> ns.foldlM (combine Number.add?) (.int 0))
  | .sub, [a] => .ok (.num a.neg)
  | .sub, a :: rest =>
    handle (tooLarge (Primitive.name .sub)) (.num <$> rest.foldlM (combine Number.sub?) a)
  | .mul, ns =>
    handle (tooLarge (Primitive.name .mul)) (.num <$> ns.foldlM (combine Number.mul?) (.int 1))
  | .div, [a] => handle (tooLarge (Primitive.name .div)) (.num <$> divide (.int 1) a)
  | .div, a :: rest => handle (tooLarge (Primitive.name .div)) (.num <$> rest.foldlM divide a)
  | .pow, [base, exponent] => .num <$> power base exponent
  | .expt, [base, exponent] => .num <$> power base exponent
  | .compare r, ns => .ok (.bool (r.chain ns))
  | .math f, [a] => handle (noResult f.name) (.num <$> applyFunction f a)
  | p, ns => .error (.error (p.arityError ns.length))

def callNumeric (describe : ClosureId → String) (room : Nat) (p : Primitive) (args : List Value) :
    Risky Value := do
  lift (p.checkArity args.length)
  compute p (← lift (Primitive.numbers describe room p.reportedName args))

theorem handle_combine (name : String) (op : Number → Number → Option Number) (a b : Number) :
    handle (tooLarge name) (combine op a b) = lift (Primitive.orTooLarge name (op a b)) := by
  unfold combine Primitive.orTooLarge
  cases op a b <;> rfl

theorem handle_divide (a b : Number) :
    handle (tooLarge (Primitive.name .div)) (divide a b) = lift (Primitive.divide a b) := by
  -- The divisor is not zero where a quotient is asked for.
  unfold divide quotient Primitive.divide
  split
  · rfl
  · exact handle_combine (Primitive.name .div) Number.quotient? a b

theorem inexactPower_eq (base exponent : Number) :
    inexactPower base exponent =
      lift (if base.isZero && exponent.isNegative then .error .zeroToNegativePower
        else match base.toFloat?, exponent.toFloat? with
          | some x, some y =>
            match Scheme.floatPower x y with
            | .ok z => .ok (.float z)
            | .error fault => .error (.noResult (Primitive.name .pow) fault)
          | _, _ => .error (.noResult (Primitive.name .pow) .tooLarge)) := by
  unfold inexactPower floatPower
  split
  · rfl
  · split
    · split <;> rfl
    · rfl

theorem power_eq (base exponent : Number) :
    power base exponent = lift (Primitive.power base exponent) := by
  have hinexact := inexactPower_eq base exponent
  unfold power Primitive.power
  cases base with
  | float x => exact hinexact
  | int b =>
    cases exponent with
    | float y => exact hinexact
    | int e =>
      simp only
      split
      · rfl
      · exact hinexact

theorem sum_eq (name : String) (op : Number → Number → Option Number) (a : Number)
    (ns : List Number) :
    handle (tooLarge name) (Value.num <$> ns.foldlM (combine op) a) =
      lift (Value.num <$> Primitive.accumulate name op a ns) := by
  rw [handle_map, lift_map, handle_foldlM (handle_combine name op)]
  rfl

theorem powers_eq (p : Primitive) (hp : p = .pow ∨ p = .expt) (ns : List Number) :
    compute p ns = lift (p.compute ns) := by
  have hpower (base exponent : Number) :
      Value.num <$> power base exponent = lift (Value.num <$> Primitive.power base exponent) := by
    rw [lift_map, power_eq]
  obtain rfl | rfl := hp <;>
  · match ns with
    | [] => rfl
    | [_] => rfl
    | [base, exponent] => exact hpower base exponent
    | _ :: _ :: _ :: _ => rfl

/-- Nothing that fails inside gets out. -/
theorem compute_eq (p : Primitive) (ns : List Number) : compute p ns = lift (p.compute ns) := by
  cases p with
  | add => exact sum_eq _ _ _ ns
  | sub =>
    match ns with
    | [] => rfl
    | [_] => rfl
    | a :: b :: rest => exact sum_eq _ _ a (b :: rest)
  | mul => exact sum_eq _ _ _ ns
  | div =>
    match ns with
    | [] => rfl
    | [a] =>
      simp only [compute, Primitive.compute]
      rw [handle_map, lift_map, handle_divide]
    | a :: b :: rest =>
      simp only [compute, Primitive.compute]
      rw [handle_map, lift_map, handle_foldlM handle_divide]
  | pow => exact powers_eq .pow (Or.inl rfl) ns
  | expt => exact powers_eq .expt (Or.inr rfl) ns
  | math f =>
    match ns with
    | [] => rfl
    | [a] =>
      simp only [compute, Primitive.compute, applyFunction]
      cases f.apply a <;> rfl
    | _ :: _ :: _ => rfl
  | _ => rfl

theorem callNumeric_eq (describe : ClosureId → String) (room : Nat) (p : Primitive)
    (args : List Value) :
    callNumeric describe room p args = lift (p.callNumeric describe room args) := by
  unfold callNumeric Primitive.callNumeric
  rw [lift_bind]
  simp only [lift_bind, compute_eq]

end Risky

end Scheme
