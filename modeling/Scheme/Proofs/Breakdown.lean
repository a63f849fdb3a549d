import Scheme.Proofs.Evaluation
import Scheme.Proofs.Scanning

/-!
# Nothing breaks down

A text is answered with a proper value, or it is at fault.
-/

namespace Scheme

namespace Store

def Present (s : Store) : Prop :=
  ∀ (i : FrameId) (f : Frame), s.frames[i]? = some f → ∀ v ∈ f.values, ¬ Value.absent.Occurs v

variable {s : Store}

theorem Present.lookup (h : s.Present) {x : Symbol} {env : FrameId} {v : Value}
    (hv : s.lookup x env = some v) : ¬ Value.absent.Occurs v := by
  obtain ⟨⟨i, w⟩, hsearch, rfl⟩ := Option.map_eq_some_iff.1 hv
  obtain ⟨f, hf, hw⟩ := search_bound hsearch
  exact h i f hf w (Frame.mem_values_of_value? hw)

theorem Present.define (h : s.Present) (env : FrameId) (x : Symbol) {v : Value}
    (hv : ¬ Value.absent.Occurs v) : (s.define env x v).Present := by
  intro i f hf w hw
  obtain hf | ⟨-, f', hf', rfl⟩ := frame_of_define hf
  · exact h i f hf w hw
  · obtain rfl | hw := Frame.mem_values_define hw
    · exact hv
    · exact h i f' hf' w hw

theorem Present.newFrame (h : s.Present) (outer : FrameId) (params : List Symbol)
    {args : List Value} (hargs : ∀ v ∈ args, ¬ Value.absent.Occurs v) :
    (s.newFrame (.ofArgs outer params args)).2.Present := by
  intro i f hf w hw
  obtain hf | ⟨-, rfl⟩ := frame_of_newFrame hf
  · exact h i f hf w hw
  · exact hargs w (Frame.mem_values_ofArgs hw)

end Store

/-- Nothing absent comes into the store or into a value. -/
def presence : Discipline where
  Inv := Store.Present
  Next _ _ := True
  Open _ _ := True
  Item _ u := u ≠ .absent

theorem present_of_holds {s : Store} {v : Value} (h : presence.Holds s v) :
    ¬ Value.absent.Occurs v :=
  fun hv => h _ hv rfl

theorem lawful_presence : presence.Lawful where
  next_refl _ := trivial
  next_trans _ _ := trivial
  open_next _ _ := trivial
  item_next _ hu := hu
  item_inert := by
    rintro s u hu rfl
    cases hu
  lookup hs _ hv := by
    rintro u hu rfl
    exact hs.lookup hv hu
  find _ _ _ := trivial
  define x _ hs _ hv := ⟨hs.define _ x (present_of_holds hv), trivial⟩
  nameClosure _ hs _ := ⟨hs, trivial⟩
  newClosure hs _ _ := ⟨⟨hs, trivial⟩, by simp [presence]⟩
  newFrame hs _ _ _ hargs :=
    ⟨⟨hs.newFrame _ _ fun v hv => present_of_holds (hargs v hv), trivial⟩, trivial⟩
  emit _ hs := ⟨hs, trivial⟩
  nextShared hs := ⟨hs, trivial⟩

namespace Session

theorem present_start (limit : Nat) (shared : Nat → Sharing) :
    (start limit shared).store.Present := by
  intro i f hf v hv habsent
  have hinert := isInert_of_occurs_start hf hv habsent
  cases hinert

theorem Reached.good_presence {s : Session} (h : s.Reached) : presence.Good s.store :=
  lawful_presence.good_reached (fun _ => trivial) present_start (fun _ _ _ _ => trivial)
    (fun _ _ => trivial) (fun _ hs => hs) h

/-- **Nothing breaks down**: an error is announced, or it is the limit. -/
theorem Reached.eval_proper {s : Session} (h : s.Reached) (source : String) :
    (∀ v, (s.eval source).1 = .ok v → ¬ Value.absent.Occurs v) ∧
      (∀ e, (s.eval source).1 = .error e →
        (e.kind?.isSome ∨ e = .depthExceeded) ∧ (∀ shown, e ≠ .notEvaluable shown) ∧
          ∀ text ∈ e.shownForm?, ∃ (describe : ClosureId → String) (form : Value),
            text = form.shown describe ∧ ∀ n, (Value.num (.int n)).Occurs form →
              Risky.digits n = .ok (writeInt n)) ∧
      Risky.scan source.toList =
        ((lex source.toList).tokens, (lex source.toList).failure.map .error) ∧
      (∀ t ∈ (lex source.toList).tokens, t.kind = .atom →
        Risky.ofWord t.text = Risky.lift (Literal.ofWord t.text)) ∧
      (∀ n, Risky.writeInt n = .ok (writeInt n)) ∧
      ∀ describe room p args,
        Risky.callNumeric describe room p args =
          Risky.lift (p.callNumeric describe room args) := by
  have hanswered := (lawful_presence.eval h.good_presence source trivial
    fun es hes => code_of_parse hes).1.value
  refine ⟨fun v hv => ?_, fun e he => ?_, Risky.scan_eq _, fun t ht hatom => ?_,
    Risky.writeInt_eq, Risky.callNumeric_eq⟩
  · rw [hv] at hanswered
    exact present_of_holds hanswered
  · rw [he] at hanswered
    have hfault : e.IsFault := hanswered
    obtain ⟨hkind, hevaluable⟩ := hfault.announced
    refine ⟨hkind, hevaluable, fun text htext => ?_⟩
    obtain ⟨describe, form, hcode, rfl⟩ := hfault.showsCode text htext
    exact ⟨describe, form, rfl, fun n hn => Risky.digits_of_code hcode hn⟩
  · exact Risky.ofWord_eq (lex_atom_ne_nil source.toList t ht hatom)

theorem eval_proper_divisionByZero :
    (fresh 100).Reached ∧
      ∃ e, ((fresh 100).eval "(/ 1 0)").1 = .error e ∧ (e.kind?.isSome ∨ e = .depthExceeded) := by
  have hreached := reached_fresh 100
  have hproper := Reached.eval_proper hreached "(/ 1 0)"
  have hfails : ((fresh 100).eval "(/ 1 0)").1.isOk = false := by decide +kernel
  refine ⟨hreached, ?_⟩
  cases h : ((fresh 100).eval "(/ 1 0)").1 with
  | ok v =>
    rw [h] at hfails
    cases hfails
  | error e => exact ⟨e, rfl, (hproper.2.1 e h).1⟩

end Session

end Scheme
