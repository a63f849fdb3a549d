import Scheme.Eval
import Scheme.Proofs.Floats
import Scheme.Proofs.Grammar
import Scheme.Proofs.Room
import Scheme.Proofs.RoundTrip

/-!
# Equal values and their written forms

Data without negative zeros are the same just if they are written alike.
-/

namespace Scheme

namespace Number

/-- The number with the negative zero made zero. -/
def unsigned : Number → Number
  | .int n => .int n
  | .float x => .float (unsignZero x)

theorem same_iff {m n : Number} (h : m.isNaN = false) :
    m.same n = true ↔ m.unsigned = n.unsigned := by
  cases m with
  | int m => cases n <;> simp [same, unsigned]
  | float x =>
    cases n with
    | int n => simp [same, unsigned]
    | float y => simpa [same, unsigned] using beq_iff h

end Number

namespace Value

theorem induct {P : Value → Prop} (leaf : ∀ v, v.list? = none → P v)
    (list : ∀ items, (∀ v ∈ items, P v) → P (.list items)) : ∀ v, P v
  | .list items => list items fun v _ => induct leaf list v
  | .absent => leaf _ rfl
  | .unspecified => leaf _ rfl
  | .bool _ => leaf _ rfl
  | .num _ => leaf _ rfl
  | .str _ => leaf _ rfl
  | .sym _ => leaf _ rfl
  | .primitive _ => leaf _ rfl
  | .closure _ => leaf _ rfl

/-! ## Sameness -/

/-- Every float in the value is a number. -/
def NaNFree (v : Value) : Prop := ∀ n, (Value.num n).Occurs v → n.isNaN = false

mutual

/-- The value with every negative zero in it made zero. -/
def unsigned : Value → Value
  | .num n => .num n.unsigned
  | .list items => .list (unsignedAll items)
  | v => v

def unsignedAll : List Value → List Value
  | [] => []
  | v :: vs => v.unsigned :: unsignedAll vs

end

theorem allEqualBy_same_iff {as : List Value}
    (h : ∀ a ∈ as, ∀ b, a.equalBy Number.same b = true ↔ a.unsigned = b.unsigned)
    (bs : List Value) : allEqualBy Number.same as bs = true ↔ unsignedAll as = unsignedAll bs := by
  induction as generalizing bs with
  | nil => cases bs <;> simp [allEqualBy, unsignedAll]
  | cons a as ih =>
    cases bs with
    | nil => simp [allEqualBy, unsignedAll]
    | cons b bs =>
      have hfirst := h a List.mem_cons_self b
      have hrest := ih (fun a ha => h a (List.mem_cons_of_mem _ ha)) bs
      simp [allEqualBy, unsignedAll, hfirst, hrest]

theorem same_iff {a : Value} (h : a.NaNFree) (b : Value) :
    a.same b = true ↔ a.unsigned = b.unsigned := by
  unfold same
  induction a using induct generalizing b with
  | leaf a hleaf =>
    cases a with
    | list items => cases hleaf
    | num n =>
      cases b with
      | num m => simpa [equalBy, unsigned] using Number.same_iff (h n .here)
      | _ => simp [equalBy, unsigned]
    | _ => cases b <;> simp [equalBy, unsigned]
  | list items ih =>
    cases b with
    | list items' =>
      have hitems := allEqualBy_same_iff (fun a ha => ih a ha fun n hn => h n (.item ha hn)) items'
      simpa [equalBy, unsigned] using hitems
    | _ => simp [equalBy, unsigned]

theorem length_of_allEqualBy {eq : Number → Number → Bool} {as bs : List Value}
    (h : allEqualBy eq as bs = true) : as.length = bs.length := by
  induction as generalizing bs with
  | nil => cases bs with
    | nil => rfl
    | cons b bs => simp [allEqualBy] at h
  | cons a as ih => cases bs with
    | nil => simp [allEqualBy] at h
    | cons b bs =>
      simp only [allEqualBy, Bool.and_eq_true] at h
      rw [List.length_cons, List.length_cons, ih h.2]

theorem areEqual_ok {as : List Value}
    (h : ∀ a ∈ as, ∀ one room place b r, a.isEqual one room place b = .ok r → r = a.same b)
    {one : Sharing} {room : Nat} {place : List Nat} {position : Nat} {bs : List Value} {r : Bool}
    (hlength : as.length = bs.length) (hr : areEqual one room place position as bs = .ok r) :
    r = allEqualBy Number.same as bs := by
  induction as generalizing bs position with
  | nil =>
    obtain rfl := List.eq_nil_of_length_eq_zero hlength.symm
    cases hr
    rfl
  | cons a as ih =>
    obtain ⟨b, bs, rfl⟩ := List.exists_cons_of_length_eq_add_one hlength.symm
    rw [areEqual] at hr
    obtain ⟨first, hfirst, hrest⟩ := bind_eq_ok hr
    obtain rfl := h a List.mem_cons_self one room _ b first hfirst
    rw [allEqualBy, ← same]
    cases hsame : a.same b with
    | false =>
      rw [hsame] at hrest
      cases hrest
      rfl
    | true =>
      rw [hsame] at hrest
      exact ih (fun a ha => h a (List.mem_cons_of_mem _ ha)) (Nat.succ.inj hlength) hrest

/-- Without a NaN, what is one object is the same anyway. -/
theorem isEqual_ok {a : Value} (ha : a.NaNFree) (one : Sharing) (room : Nat) (place : List Nat)
    (b : Value) (r : Bool) (h : a.isEqual one room place b = .ok r) : r = a.same b := by
  induction a using induct generalizing one room place b r with
  | leaf a hleaf =>
    rw [isEqual.eq_def] at h
    split at h
    · rename_i hone
      obtain rfl : a = b := beq_iff_eq.1 (Bool.and_eq_true_iff.1 hone).2
      cases h
      exact ((same_iff ha a).2 rfl).symm
    · split at h
      · cases hleaf
      · cases h
        rfl
  | list items ih =>
    rw [isEqual.eq_def] at h
    split at h
    · rename_i hone
      obtain rfl : Value.list items = b := beq_iff_eq.1 (Bool.and_eq_true_iff.1 hone).2
      cases h
      exact ((same_iff ha _).2 rfl).symm
    · split at h
      · rename_i as bs hlists _
        cases hlists
        split at h
        · rename_i hlength
          cases room with
          | zero => cases h
          | succ room =>
            exact areEqual_ok (fun a hmem => ih a hmem fun n hn => ha n (.item hmem hn)) hlength h
        · rename_i hlength
          cases h
          refine (Bool.eq_false_iff.2 fun hsame => hlength ?_).symm
          exact length_of_allEqualBy hsame
      · cases h
        rfl

theorem unsigned_eq_self {v : Value}
    (h : ∀ x, (Value.num (.float x)).Occurs v → x ≠ -0.0) : v.unsigned = v := by
  induction v using induct with
  | leaf v hleaf =>
    cases v with
    | list items => cases hleaf
    | num n =>
      cases n with
      | int n => rfl
      | float x => simp [unsigned, Number.unsigned, unsignZero, h x .here]
    | _ => rfl
  | list items ih =>
    have hitems : ∀ v ∈ items, v.unsigned = v :=
      fun v hv => ih v hv fun x hx => h x (.item hv hx)
    have hall : ∀ vs : List Value, (∀ v ∈ vs, v.unsigned = v) → unsignedAll vs = vs := by
      intro vs hvs
      induction vs with
      | nil => rfl
      | cons v vs ih =>
        obtain ⟨hv, hvs⟩ := List.forall_mem_cons.1 hvs
        rw [unsignedAll, hv, ih hvs]
    rw [unsigned, hall items hitems]

/-! ## Written forms -/

theorem Readable.of_occurs {u v : Value} (hu : u.Occurs v) (hv : v.Readable) : u.Readable := by
  induction hu with
  | here => exact hv
  | item mem _ ih =>
    cases hv with
    | list readable => exact ih (readable _ mem)

theorem Readable.nanFree {v : Value} (h : v.Readable) : v.NaNFree := by
  intro n hn
  cases of_occurs hn h with
  | int => rfl
  | float finite => exact (finite_cases finite).1

variable {describe : ClosureId → String} {a b v : Value}

theorem tokensAll_eq (vs : List Value) : tokensAll describe vs = vs.flatMap (tokens describe) := by
  induction vs with
  | nil => rfl
  | cons v vs ih => rw [tokensAll, ih, List.flatMap_cons]

theorem tokens_append_ne (v : Value) (closing : List Char) (ts us : List Token) :
    v.tokens describe ++ ts ≠ ⟨.closeParen, closing⟩ :: us := by
  cases v <;> simp [tokens]

/-- The value is written as one word, which stands for it or, if it is a float, for some float. -/
structure IsWord (describe : ClosureId → String) (v : Value) : Prop where
  tokens_eq : v.tokens describe = [⟨.atom, (v.write describe).toList⟩]
  stands : ∃ w, Literal.ofWord (v.write describe).toList = .ok w ∧
    (v = w ∨ ∃ x y, v = .num (.float x) ∧ w = .num (.float y))

theorem Readable.cases (describe : ClosureId → String) (h : v.Readable) :
    (∃ items, v = .list items ∧ ∀ w ∈ items, w.Readable) ∨ (∃ s, v = .str s) ∨
      v.IsWord describe := by
  cases h with
  | list readable => exact Or.inl ⟨_, rfl, readable⟩
  | str s => exact Or.inr (Or.inl ⟨s, rfl⟩)
  | bool b =>
    refine Or.inr (Or.inr ⟨rfl, _, ?_, Or.inl rfl⟩)
    cases b <;> simp [write, Literal.ofWord]
  | int digits => exact Or.inr (Or.inr ⟨rfl, _, ofWord_writeInt digits, Or.inl rfl⟩)
  | sym _ word => exact Or.inr (Or.inr ⟨rfl, _, word, Or.inl rfl⟩)
  | float finite =>
    obtain ⟨negative, ds, exponent, htext⟩ := ofText?_writeFloat finite
    exact Or.inr (Or.inr ⟨rfl, _, ofWord_fraction htext, Or.inr ⟨_, _, rfl, rfl⟩⟩)

/-- Of the floats in the two values, different ones are written differently. -/
def FloatsTold (a b : Value) : Prop :=
  ∀ x y, (Value.num (.float x)).Occurs a → (Value.num (.float y)).Occurs b →
    writeFloat x = writeFloat y → x = y

theorem IsWord.eq (ha : a.IsWord describe) (hb : b.IsWord describe) (host : FloatsTold a b)
    (h : a.write describe = b.write describe) : a = b := by
  obtain ⟨w, hw, ha⟩ := ha.stands
  obtain ⟨w', hw', hb⟩ := hb.stands
  obtain rfl : w = w' := by
    rw [h, hw'] at hw
    exact (Except.ok.inj hw).symm
  -- Both are `w`, or both are floats.
  have hfloats {x y : Float} (hx : a = .num (.float x)) (hy : b = .num (.float y)) : a = b := by
    subst hx hy
    rw [host x y .here .here h]
  rcases ha with rfl | ⟨x, y, ha, rfl⟩
  · rcases hb with rfl | ⟨x, y, hb, ha⟩
    · rfl
    · exact hfloats ha hb
  · rcases hb with hb | ⟨x', y', hb, -⟩
    · exact hfloats ha hb
    · exact hfloats ha hb

theorem writeString_injective {s s' : String}
    (h : (writeString s).toList = (writeString s').toList) : s = s' := by
  rw [← ofQuoted_writeString s, h, ofQuoted_writeString]

/-- The tokens of a datum end where the datum ends. -/
theorem Readable.determined (ha : a.Readable) (hb : b.Readable) (host : FloatsTold a b)
    {ts us : List Token} (h : a.tokens describe ++ ts = b.tokens describe ++ us) :
    a = b ∧ ts = us := by
  induction a using induct generalizing b ts us with
  | list items ih =>
    rcases hb.cases describe with ⟨items', rfl, hitems'⟩ | ⟨s, rfl⟩ | hword
    · rcases ha with _ | _ | _ | _ | _ | hitems
      simp only [tokens, tokensAll_eq, List.cons_append, List.append_assoc, List.nil_append,
        List.cons.injEq, true_and] at h
      have hall : ∀ v ∈ items, ∀ w ∈ items', ∀ ts us,
          v.tokens describe ++ ts = w.tokens describe ++ us → v = w ∧ ts = us := by
        intro v hv w hw ts us
        exact ih v hv (hitems v hv) (hitems' w hw) fun x y hx hy =>
          host x y (.item hv hx) (.item hw hy)
      obtain ⟨rfl, -, hts⟩ := determined_items tokens_append_ne hall h
      exact ⟨rfl, hts⟩
    · simp [tokens] at h
    · simp [hword.tokens_eq, tokens] at h
  | leaf a hleaf =>
    rcases ha.cases describe with ⟨items, rfl, -⟩ | ⟨s, rfl⟩ | hword
    · cases hleaf
    · rcases hb.cases describe with ⟨items', rfl, -⟩ | ⟨s', rfl⟩ | hword'
      · simp [tokens] at h
      · simp only [tokens, List.cons_append, List.nil_append, List.cons.injEq, Token.mk.injEq,
          true_and] at h
        exact ⟨congrArg Value.str (writeString_injective h.1), h.2⟩
      · simp [hword'.tokens_eq, tokens] at h
    · rcases hb.cases describe with ⟨items', rfl, -⟩ | ⟨s', rfl⟩ | hword'
      · simp [hword.tokens_eq, tokens] at h
      · simp [hword.tokens_eq, tokens] at h
      · simp only [hword.tokens_eq, hword'.tokens_eq, List.cons_append, List.nil_append,
          List.cons.injEq, Token.mk.injEq, true_and, String.toList_inj] at h
        exact ⟨hword.eq hword' host h.1, h.2⟩

theorem Readable.lex_write (h : v.Readable) :
    lex (v.write describe).toList = ⟨v.tokens describe, none⟩ := by
  have hlexes : v.Lexes describe := h.lexes
  have htext := hlexes [] [] (firstChar_nil _)
  rw [List.append_nil, List.append_nil] at htext
  rw [Lexer.lex_eq]
  refine htext.trans ?_
  simp [Lexer.lexed, Lexer.read, Lexer.finish]

theorem Readable.write_injective (ha : a.Readable) (hb : b.Readable) (host : FloatsTold a b)
    (h : a.write describe = b.write describe) : a = b := by
  have hlex : lex (a.write describe).toList = ⟨a.tokens describe, none⟩ := ha.lex_write
  rw [h, hb.lex_write] at hlex
  have htokens : a.tokens describe ++ [] = b.tokens describe ++ [] := by
    rw [(Lexed.mk.inj hlex).1]
  exact (ha.determined hb host htokens).1

theorem equivalence_same :
    Equivalence fun a b : {v : Value // v.NaNFree} => a.1.same b.1 = true where
  refl a := (same_iff a.2 a.1).2 rfl
  symm {a b} h := (same_iff b.2 a.1).2 ((same_iff a.2 b.1).1 h).symm
  trans {a b c} hab hbc :=
    (same_iff a.2 c.1).2 (((same_iff a.2 b.1).1 hab).trans ((same_iff b.2 c.1).1 hbc))

theorem run_equal {a : Value} (ha : a.NaNFree) (b : Value) (depth : Nat) (s : Store) :
    Eval.run (depth + 1) (.call (.primitive .equal) [a, b]) s =
        .ok (.bool (a.same b)) s.nextShared.2 ∨
      Eval.run (depth + 1) (.call (.primitive .equal) [a, b]) s =
        .error .depthExceeded s.nextShared.2 ∧ depth < a.nesting ∧ depth < b.nesting := by
  have hcall : Eval.run (depth + 1) (.call (.primitive .equal) [a, b]) s =
      (do return Value.bool (← Eval.ofExcept (a.isEqual s.nextShared.1 depth [] b)) : Eval Value)
        s.nextShared.2 := rfl
  rw [hcall]
  rcases isEqual_cases s.nextShared.1 depth [] a b with ⟨r, hr⟩ | ⟨hexceeded, hnesting⟩
  · rw [hr, ← isEqual_ok ha _ _ _ b r hr]
    exact Or.inl rfl
  · rw [hexceeded]
    exact Or.inr ⟨rfl, hnesting⟩

/-- **Equality shows in print.** -/
theorem same_iff_written_alike :
    (∀ a b : Value, a.NaNFree → ∀ depth s,
      Eval.run (depth + 1) (.call (.primitive .equal) [a, b]) s =
          .ok (.bool (a.same b)) s.nextShared.2 ∨
        Eval.run (depth + 1) (.call (.primitive .equal) [a, b]) s =
          .error .depthExceeded s.nextShared.2 ∧ depth < a.nesting ∧ depth < b.nesting) ∧
    Equivalence (fun a b : {v : Value // v.NaNFree} => a.1.same b.1 = true) ∧
    ∀ (describe : ClosureId → String) (a b : Value), a.Readable → b.Readable →
      (∀ x, (Value.num (.float x)).Occurs a ∨ (Value.num (.float x)).Occurs b → x ≠ -0.0) →
      (∀ x y, (Value.num (.float x)).Occurs a → (Value.num (.float y)).Occurs b →
        writeFloat x = writeFloat y → x = y) →
      (a.same b = true ↔ a.write describe = b.write describe) := by
  refine ⟨fun a b ha => run_equal ha b, equivalence_same, ?_⟩
  intro describe a b ha hb hzero host
  rw [same_iff ha.nanFree, unsigned_eq_self fun x hx => hzero x (.inl hx),
    unsigned_eq_self fun x hx => hzero x (.inr hx)]
  constructor
  · rintro rfl
    rfl
  · exact ha.write_injective hb host

/-- Written `("a\" \"b" (1.5))`. -/
def quotesWithin : Value := .list [.str "a\" \"b", .list [.num (.float 1.5)]]

/-- Written `("a" "b" (1.5))`. -/
def quotesAround : Value := .list [.str "a", .str "b", .list [.num (.float 1.5)]]

theorem same_iff_written_alike_quotes :
    quotesWithin.Readable ∧ quotesAround.Readable ∧
      quotesWithin.write (fun _ => "") ≠ quotesAround.write (fun _ => "") ∧
      ∀ s, Eval.run 3 (.call (.primitive .equal) [quotesWithin, quotesAround]) s =
        .ok (.bool false) s.nextShared.2 := by
  have hinner : (Value.list [.num (.float 1.5)]).Readable := by
    refine .list fun v hv => ?_
    obtain rfl := List.mem_singleton.1 hv
    exact .float (by decide +kernel)
  have hwithin : quotesWithin.Readable := .list (by simp [hinner, Readable.str])
  have haround : quotesAround.Readable := .list (by simp [hinner, Readable.str])
  have hfloat {items : List Value} {x : Float}
      (hitems : ∀ v ∈ items, (∃ s, v = .str s) ∨ v = .list [.num (.float 1.5)])
      (hx : (Value.num (.float x)).Occurs (.list items)) : x = 1.5 := by
    obtain _ | ⟨hv, hx⟩ := hx
    obtain ⟨s, rfl⟩ | rfl := hitems _ hv
    · cases hx
    · obtain _ | ⟨hw, hx⟩ := hx
      obtain rfl := List.mem_singleton.1 hw
      cases hx
      rfl
  have hx {x : Float} (h : (Value.num (.float x)).Occurs quotesWithin) : x = 1.5 :=
    hfloat (by simp) h
  have hy {y : Float} (h : (Value.num (.float y)).Occurs quotesAround) : y = 1.5 :=
    hfloat (by simp) h
  have hzero : (1.5 : Float) ≠ -0.0 := by decide +kernel
  have halike := same_iff_written_alike.2.2 (fun _ => "") _ _ hwithin haround
    (fun x h => by rwa [h.elim hx hy]) (fun x y h h' _ => (hx h).trans (hy h').symm)
  have hwritten : quotesWithin.write (fun _ => "") ≠ quotesAround.write (fun _ => "") := by
    decide +kernel
  have hsame : quotesWithin.same quotesAround = false := by
    rw [← Bool.not_eq_true, halike]
    exact hwritten
  refine ⟨hwithin, haround, hwritten, fun s => ?_⟩
  have hequal := same_iff_written_alike.1 _ quotesAround hwithin.nanFree 2 s
  rw [hsame] at hequal
  exact hequal.resolve_right fun h => absurd h.2.1 (by decide)

end Value

end Scheme
