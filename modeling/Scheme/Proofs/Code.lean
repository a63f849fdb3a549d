import Scheme.Proofs.Answers
import Scheme.Proofs.Reading

/-!
# What is read

Neither a procedure nor anything absent stands in an expression that was read.
-/

namespace Scheme

/-- An expression that some text reads as, by itself or among others. -/
def Value.IsRead (e : Value) : Prop :=
  ∃ limit source es, parse limit source = .ok es ∧ e ∈ es

/-! ## Atoms are not empty -/

namespace Lexer

/-- The atoms that are complete, and the one that is being read, are not empty. -/
structure AtomsFilled (l : Lexer) : Prop where
  tokens : ∀ t ∈ l.tokens, t.kind = .atom → t.text ≠ []
  reading : ∀ text, l.mode = .atom text → text ≠ []

theorem atomsFilled_push {mode : Mode} {ts : List Token} {t : Token}
    (h : ∀ t ∈ ts, t.kind = .atom → t.text ≠ []) (ht : t.kind = .atom → t.text ≠ [])
    (hmode : ∀ text, mode ≠ .atom text) : AtomsFilled ⟨mode, t :: ts⟩ where
  tokens := by
    intro u hu
    rcases List.mem_cons.1 hu with rfl | hu
    · exact ht
    · exact h u hu
  reading text htext := absurd htext (hmode text)

theorem atomsFilled_start {ts : List Token} (h : ∀ t ∈ ts, t.kind = .atom → t.text ≠ [])
    (c : Char) : AtomsFilled (start ts c) := by
  unfold start
  split
  · exact ⟨h, by simp⟩
  · split
    · exact ⟨h, by simp⟩
    · exact atomsFilled_push h (by simp) (by simp)
    · exact atomsFilled_push h (by simp) (by simp)
    · exact atomsFilled_push h (by simp) (by simp)
    · exact ⟨h, by simp⟩
    · exact ⟨h, by simp⟩

theorem AtomsFilled.step {l : Lexer} (h : l.AtomsFilled) (c : Char) : (l.step c).AtomsFilled := by
  obtain ⟨mode, ts⟩ := l
  obtain ⟨htokens, hreading⟩ := h
  cases mode with
  | gap => exact atomsFilled_start htokens c
  | comment =>
    simp only [Lexer.step]
    split
    · exact ⟨htokens, by simp⟩
    · exact ⟨htokens, by simp⟩
  | atom text =>
    simp only [Lexer.step]
    split
    · exact ⟨htokens, by simp⟩
    · have hatom : AtomsFilled ⟨.gap, ⟨.atom, text.reverse⟩ :: ts⟩ :=
        atomsFilled_push htokens (by simpa using hreading text rfl) (by simp)
      exact atomsFilled_start hatom.tokens c
  | string text escaped =>
    cases escaped with
    | true => exact ⟨htokens, by simp [Lexer.step]⟩
    | false =>
      simp only [Lexer.step]
      split
      · exact atomsFilled_push htokens (by simp) (by simp)
      · exact ⟨htokens, by simp⟩

theorem AtomsFilled.foldl {l : Lexer} (h : l.AtomsFilled) (text : List Char) :
    (text.foldl Lexer.step l).AtomsFilled := by
  induction text generalizing l with
  | nil => exact h
  | cons c text ih => exact ih (h.step c)

end Lexer

theorem lex_atom_ne_nil (source : List Char) :
    ∀ t ∈ (lex source).tokens, t.kind = .atom → t.text ≠ [] := by
  have hstart : Lexer.AtomsFilled {} := ⟨by simp, by simp⟩
  have hend := hstart.foldl source
  unfold lex
  generalize source.foldl Lexer.step {} = l at hend
  obtain ⟨mode, ts⟩ := l
  obtain ⟨htokens, hreading⟩ := hend
  cases mode with
  | atom text =>
    intro t ht
    rcases List.mem_cons.1 (List.mem_reverse.1 ht) with rfl | ht
    · simpa using hreading text rfl
    · exact htokens t ht
  | _ => exact fun t ht => htokens t (List.mem_reverse.1 ht)

/-! ## Reading -/

theorem Numeral.lt_ten_of_integer {word : List Char} {negative : Bool} {digits : List Nat}
    (h : ofText? word = some (.integer negative digits)) : ∀ d ∈ digits, d < 10 := by
  unfold ofText? unsigned? at h
  simp only at h
  split at h
  · split at h
    · cases h
    · cases h
      exact Text.digitRun_lt_ten _
  · split at h
    · cases h
    · obtain ⟨e, -, heq⟩ := Option.map_eq_some_iff.1 h
      cases heq
  · split at h
    · cases h
    · obtain ⟨e, -, heq⟩ := Option.map_eq_some_iff.1 h
      cases heq

theorem Numeral.natAbs_signed (negative : Bool) (n : Nat) : (signed negative n).natAbs = n := by
  cases negative <;> simp [signed]

theorem ofWord_faultOr {word : List Char} (h : word ≠ []) :
    FaultOr (Value.Code AnyName) (Literal.ofWord word) := by
  unfold Literal.ofWord
  split
  · exact .bool true
  · exact .bool false
  · split
    · split
      · exact trivial
      · rename_i negative digits hinteger hcount
        have hdigits := Text.ofDigits_lt (Numeral.lt_ten_of_integer hinteger)
        rw [← Numeral.natAbs_signed negative (Text.ofDigits digits)] at hdigits
        exact .num (Number.isShort_of_lt hdigits (Nat.le_of_not_lt hcount))
    · exact .num trivial
    · split
      · exact .sym trivial
      · rename_i hname
        rw [Symbol.ofName?_eq_none_iff, String.ofList_eq_empty_iff] at hname
        exact absurd hname h

namespace Reader

def Pending.IsCode : Pending → Prop
  | .quoted => True
  | .list items => ∀ e ∈ items, e.Code AnyName

/-- What a token leads to is code, or the text is at fault. -/
def Step.IsCode : Step → Prop
  | .complete v => v.Code AnyName
  | .more _ stack => ∀ p ∈ stack, p.IsCode
  | .fault e => e.IsFault
  | .blocked e => e.IsFault

theorem deliver_isCode {v : Value} (hv : v.Code AnyName) (room : Nat) {stack : List Pending}
    (hstack : ∀ p ∈ stack, p.IsCode) : (deliver room v stack).IsCode := by
  induction stack generalizing room v with
  | nil => exact hv
  | cons p stack ih =>
    obtain ⟨hp, hrest⟩ := List.forall_mem_cons.1 hstack
    cases p with
    | quoted =>
      have hquote : (Value.sym .quote).Code AnyName := .sym trivial
      have hquoted : (Value.list [.sym .quote, v]).Code AnyName := .list (by simp [hquote, hv])
      exact ih hquoted (room + 1) hrest
    | list items =>
      have hitems : Pending.IsCode (.list (v :: items)) := List.forall_mem_cons.2 ⟨hv, hp⟩
      exact List.forall_mem_cons.2 ⟨hitems, hrest⟩

theorem descend_isCode (room : Nat) {stack : List Pending} (hstack : ∀ p ∈ stack, p.IsCode)
    {p : Pending} (hp : p.IsCode) : (descend room stack p).IsCode := by
  cases room with
  | zero => exact trivial
  | succ room => exact List.forall_mem_cons.2 ⟨hp, hstack⟩

theorem take_isCode (room : Nat) {stack : List Pending} (hstack : ∀ p ∈ stack, p.IsCode)
    {t : Token} (ht : t.kind = .atom → t.text ≠ []) : (take room stack t).IsCode := by
  obtain ⟨kind, text⟩ := t
  unfold take
  cases kind with
  | atom =>
    have hword := ofWord_faultOr (ht rfl)
    simp only at hword ⊢
    cases h : Literal.ofWord text with
    | ok v =>
      rw [h] at hword
      exact deliver_isCode hword room hstack
    | error e =>
      rw [h] at hword
      exact hword
  | string => exact deliver_isCode (.str _) room hstack
  | quote => exact descend_isCode room hstack trivial
  | openParen => exact descend_isCode room hstack (by simp [Pending.IsCode])
  | closeParen =>
    cases stack with
    | nil => exact trivial
    | cons p stack =>
      obtain ⟨hp, hrest⟩ := List.forall_mem_cons.1 hstack
      cases p with
      | quoted => exact trivial
      | list items =>
        exact deliver_isCode (.list fun e he => hp e (List.mem_reverse.1 he)) (room + 1) hrest
  | other label => exact trivial

structure State.IsCode (s : State) : Prop where
  stack : ∀ p ∈ s.stack, p.IsCode
  read : ∀ e ∈ s.read, e.Code AnyName

theorem State.step_faultOr {s : State} (h : s.IsCode) (limit : Nat) {t : Token}
    (ht : t.kind = .atom → t.text ≠ []) : FaultOr State.IsCode (s.step limit t) := by
  have htake := take_isCode s.room h.stack ht
  unfold State.step
  cases hstep : take s.room s.stack t with
  | complete v =>
    rw [hstep] at htake
    exact ⟨by simp, List.forall_mem_cons.2 ⟨htake, h.read⟩⟩
  | more room stack =>
    rw [hstep] at htake
    exact ⟨htake, h.read⟩
  | fault e =>
    rw [hstep] at htake
    exact htake
  | blocked e =>
    rw [hstep] at htake
    exact htake

theorem State.steps_faultOr {s : State} (h : s.IsCode) (limit : Nat) {ts : List Token}
    (hts : ∀ t ∈ ts, t.kind = .atom → t.text ≠ []) : FaultOr State.IsCode (s.steps limit ts) := by
  induction ts generalizing s with
  | nil => exact h
  | cons t ts ih =>
    obtain ⟨ht, hrest⟩ := List.forall_mem_cons.1 hts
    rw [State.steps_cons]
    exact (State.step_faultOr h limit ht).bind fun s' hs' => ih hs' hrest

theorem State.finish_faultOr {s : State} (h : s.IsCode) {failure : Option Error}
    (hfailure : ∀ e ∈ failure, e.IsFault) :
    FaultOr (fun es => ∀ e ∈ es, e.Code AnyName) (s.finish failure) := by
  unfold State.finish
  cases failure with
  | some e => exact hfailure e rfl
  | none =>
    cases hend : endFault? s.stack with
    | none => exact fun e he => h.read e (List.mem_reverse.1 he)
    | some e =>
      simp only [Option.none_or]
      cases hs : s.stack with
      | nil =>
        rw [hs] at hend
        cases hend
      | cons p stack =>
        rw [hs] at hend
        cases p <;> cases hend <;> trivial

end Reader

theorem lex_failure_isFault (source : List Char) : ∀ e ∈ (lex source).failure, e.IsFault := by
  unfold lex Lexer.finish
  split <;> simp [Error.IsFault]

theorem parse_faultOr (limit : Nat) (source : List Char) :
    FaultOr (fun es => ∀ e ∈ es, e.Code AnyName) (parse limit source) := by
  have hstart : Reader.State.IsCode { room := limit } := ⟨by simp, by simp⟩
  rw [parse_eq]
  exact (Reader.State.steps_faultOr hstart limit (lex_atom_ne_nil source)).bind fun s hs =>
    Reader.State.finish_faultOr hs (lex_failure_isFault source)

theorem code_of_parse {limit : Nat} {source : List Char} {es : List Value}
    (h : parse limit source = .ok es) : ∀ e ∈ es, e.Code AnyName := by
  have hread := parse_faultOr limit source
  rw [h] at hread
  exact hread

theorem Value.IsRead.code {e : Value} (h : e.IsRead) : e.Code AnyName := by
  obtain ⟨limit, source, es, hparse, he⟩ := h
  exact code_of_parse hparse e he

end Scheme
