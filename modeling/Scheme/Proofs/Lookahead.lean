import Mathlib.Data.List.Forall2
import Scheme.Proofs.Agreement

/-!
# Looking ahead

Whatever a stream is asked for, tokens are taken from the front, each once.
-/

namespace Scheme.TokenStream

/-! ## What a stream is asked for -/

inductive Request where
  | peek
  | advance
  | expr
  | all
deriving DecidableEq

inductive Answer where
  | token (t : Option Token)
  | expr (v : Option Value)
  | exprs (vs : List Value)

/-- A request, with the stream as it was, the answer, and the stream as it is then. -/
structure Turn where
  request : Request
  before : TokenStream
  answer : Except Error Answer
  after : TokenStream

def turn (limit : Nat) (s : TokenStream) : Request → Turn
  | .peek => ⟨.peek, s, s.peek.1.map .token, s.peek.2⟩
  | .advance => ⟨.advance, s, s.advance.1.map .token, s.advance.2⟩
  | .expr => ⟨.expr, s, (s.readExpr limit).1.map .expr, (s.readExpr limit).2⟩
  | .all => ⟨.all, s, (s.readAll limit).1.map .exprs, (s.readAll limit).2⟩

def turns (limit : Nat) (s : TokenStream) : List Request → List Turn
  | [] => []
  | q :: qs => s.turn limit q :: (s.turn limit q).after.turns limit qs

def answers (limit : Nat) (s : TokenStream) (qs : List Request) : List (Except Error Answer) :=
  (s.turns limit qs).map Turn.answer

/-- The stream after all requests. -/
def left (limit : Nat) (s : TokenStream) (qs : List Request) : TokenStream :=
  qs.foldl (fun s q => (s.turn limit q).after) s

/-- These tokens are taken: none by looking, the one that is handed out by advancing, and those that
are taken on the way down by reading. -/
def Turn.Takes (limit : Nat) (turn : Turn) (taken : List Token) : Prop :=
  match turn.request with
  | .peek => turn.answer = .ok (.token turn.before.remaining.head?) ∧ taken = []
  | .advance => ∃ t : Option Token, turn.answer = .ok (.token t) ∧ taken = t.toList
  | .expr => ∃ r, turn.answer = r.map (fun vs => .expr vs.head?) ∧
      Descends .one limit turn.before r taken turn.after
  | .all => ∃ r, turn.answer = r.map .exprs ∧ Descends .all limit turn.before r taken turn.after

variable (limit : Nat) {s s' : TokenStream}

@[simp] theorem request_turn (s : TokenStream) (q : Request) : (s.turn limit q).request = q := by
  cases q <;> rfl

@[simp] theorem before_turn (s : TokenStream) (q : Request) : (s.turn limit q).before = s := by
  cases q <;> rfl

/-! ## What is taken -/

theorem exists_takes (hs : s.Regular) (q : Request) :
    ∃ taken, (s.turn limit q).Takes limit taken ∧
      (q ≠ .peek → s.remaining ≠ [] → taken ≠ []) ∧
      s.remaining = taken ++ (s.turn limit q).after.remaining ∧
      (s.turn limit q).after.Regular := by
  cases q with
  | peek =>
    refine ⟨[], ?_, fun h => absurd rfl h, s.remaining_peek.symm, hs.peek⟩
    simp [turn, Turn.Takes, peek_eq hs, Except.map]
  | advance =>
    refine ⟨s.remaining.head?.toList, ⟨s.remaining.head?, ?_, rfl⟩, fun _ hsome => ?_, ?_,
      hs.advance⟩
    · simp [turn, advance_eq hs, Except.map]
    · simpa using hsome
    · have hafter : (s.turn limit .advance).after.remaining = s.remaining.tail :=
        s.remaining_advance
      rw [hafter]
      cases s.remaining <;> rfl
  | expr =>
    obtain ⟨r, taken, hr, h⟩ := readExpr_descends limit hs
    refine ⟨taken, ⟨r, ?_, h⟩, fun _ => h.taken_ne_nil hs, h.remaining_eq hs⟩
    have hanswer : (s.turn limit .expr).answer = (s.readExpr limit).1.map .expr := rfl
    rw [hanswer, hr]
    cases r <;> rfl
  | all =>
    obtain ⟨taken, h⟩ := readAll_descends limit hs
    exact ⟨taken, ⟨_, rfl, h⟩, fun _ => h.taken_ne_nil hs, h.remaining_eq hs⟩

theorem exists_takes_all (hs : s.Regular) (qs : List Request) :
    ∃ taken : List (List Token),
      List.Forall₂ (fun turn taken => turn.Takes limit taken ∧
        (turn.request ≠ .peek → turn.before.remaining ≠ [] → taken ≠ [])) (s.turns limit qs) taken ∧
      s.remaining = taken.flatten ++ (s.left limit qs).remaining ∧ (s.left limit qs).Regular := by
  induction qs generalizing s with
  | nil => exact ⟨[], .nil, rfl, hs⟩
  | cons q qs ih =>
    obtain ⟨taken, htakes, hsome, hremaining, hregular⟩ := exists_takes limit hs q
    obtain ⟨rest, hrest, hflatten, hleft⟩ := ih hregular
    refine ⟨taken :: rest, .cons ⟨htakes, by simpa using hsome⟩ hrest, ?_, hleft⟩
    rw [hremaining, hflatten, List.flatten_cons, List.append_assoc]
    rfl

/-! ## Looking makes no difference -/

theorem turn_congr (hs : s.Regular) (hs' : s'.Regular)
    (h : s.remaining = s'.remaining) (q : Request) :
    (s.turn limit q).answer = (s'.turn limit q).answer ∧
      (s.turn limit q).after = (s'.turn limit q).after := by
  cases q with
  | peek => simp [turn, peek_eq hs, peek_eq hs', h]
  | advance => simp [turn, advance_eq hs, advance_eq hs', h]
  | expr => simp [turn, readExpr, hs.failure_eq, hs'.failure_eq, h]
  | all => simp [turn, readAll, hs.failure_eq, hs'.failure_eq, h]

theorem answers_congr (hs : s.Regular) (hs' : s'.Regular)
    (h : s.remaining = s'.remaining) (qs : List Request) :
    s.answers limit qs = s'.answers limit qs := by
  cases qs with
  | nil => rfl
  | cons q qs =>
    obtain ⟨hanswer, hafter⟩ := turn_congr limit hs hs' h q
    simp only [answers, turns, List.map_cons, hanswer, hafter]

theorem answers_eraseIdx (hs : s.Regular) {qs : List Request} {n : Nat}
    (h : qs[n]? = some .peek) :
    s.answers limit (qs.eraseIdx n) = (s.answers limit qs).eraseIdx n := by
  induction qs generalizing s n with
  | nil => cases h
  | cons q qs ih =>
    obtain ⟨taken, -, -, hremaining, hregular⟩ := exists_takes limit hs q
    cases n with
    | zero =>
      obtain rfl : q = .peek := by simpa using h
      have hpeek : (s.turn limit .peek).after.remaining = s.remaining := s.remaining_peek
      exact answers_congr limit hs hregular hpeek.symm qs
    | succ n => exact congrArg _ (ih hregular h)

/-- **Looking ahead is invisible, and no token is lost or taken twice.** -/
theorem turns_inOrder (ts : List Token) (qs : List Request) :
    let s : TokenStream := { incoming := ts }
    let rest := s.left limit qs
    (∃ taken : List (List Token),
      List.Forall₂ (fun turn taken => turn.Takes limit taken ∧
        (turn.request ≠ .peek → turn.before.remaining ≠ [] → taken ≠ [])) (s.turns limit qs) taken ∧
      ts = taken.flatten ++ (rest.buffer ++ rest.incoming) ∧ rest.buffer.length ≤ 1) ∧
    ∀ n, qs[n]? = some .peek →
      s.answers limit (qs.eraseIdx n) = (s.answers limit qs).eraseIdx n := by
  intro s rest
  have hs : s.Regular := regular_ofTokens ts
  obtain ⟨taken, htakes, hflatten, hleft⟩ := exists_takes_all limit hs qs
  exact ⟨⟨taken, htakes, hflatten, hleft.length_buffer⟩, fun n h => answers_eraseIdx limit hs h⟩

/-- Behind the quote mark comes what cannot be quoted, and behind the last word the list is open. -/
def faultyTokens : List Token :=
  [⟨.quote, ['\x27']⟩, ⟨.closeParen, [')']⟩, ⟨.atom, ['a']⟩, ⟨.openParen, ['(']⟩, ⟨.atom, ['b']⟩]

theorem turns_inOrder_faulty :
    let s : TokenStream := { incoming := faultyTokens }
    let qs : List Request := [.expr, .peek, .expr, .advance, .all]
    qs[1]? = some .peek ∧
      s.answers 5 (qs.eraseIdx 1) = [.error .closeAfterQuote, .error .unexpectedClose,
        .ok (.token (some ⟨.atom, ['a']⟩)), .error .unclosedList] := by
  refine ⟨rfl, ?_⟩
  have hsame := (turns_inOrder 5 faultyTokens [.expr, .peek, .expr, .advance, .all]).2 1 rfl
  exact hsame.trans rfl

end Scheme.TokenStream
