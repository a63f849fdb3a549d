import Scheme.Reader

/-!
# The reader as a machine

A token leads from one state of the reader to the next, or is at fault.
-/

namespace Scheme

theorem bind_eq_ok {α β : Type} {r : Except Error α} {f : α → Except Error β} {b : β}
    (h : r.bind f = .ok b) : ∃ a, r = .ok a ∧ f a = .ok b := by
  cases r with
  | error e => cases h
  | ok a => exact ⟨a, rfl, h⟩

theorem map_eq_ok {α β : Type} {r : Except Error α} {f : α → β} {b : β} (h : r.map f = .ok b) :
    ∃ a, r = .ok a ∧ f a = b := by
  cases r with
  | error e => cases h
  | ok a => exact ⟨a, rfl, Except.ok.inj h⟩

/-- No further text can mend the error. -/
def Error.IsDefinite (e : Error) : Prop := e.kind? = some .malformed ∨ e.kind? = none

theorem Error.IsDefinite.not_incomplete {e : Error} (h : e.IsDefinite) :
    e.isIncomplete = false := by
  rcases h with h | h <;> simp [Error.isIncomplete, h]

namespace Reader

/-- What the reader knows between two tokens. -/
structure State where
  room : Nat
  stack : List Pending := []
  /-- the expressions that are complete, latest first -/
  read : List Value := []

def Step.next (limit : Nat) (read : List Value) : Step → Except Error State
  | .complete v => .ok { room := limit, read := v :: read }
  | .more room stack => .ok ⟨room, stack, read⟩
  | .fault e => .error e
  | .blocked e => .error e

namespace State

def step (limit : Nat) (s : State) (t : Token) : Except Error State :=
  (take s.room s.stack t).next limit s.read

/-- The state after more tokens, or the first error. -/
def steps (limit : Nat) (s : State) (ts : List Token) : Except Error State :=
  ts.foldlM (step limit) s

def finish (failure : Option Error) (s : State) : Except Error (List Value) :=
  match failure.or (endFault? s.stack) with
  | some e => .error e
  | none => .ok s.read.reverse

theorem steps_nil (limit : Nat) (s : State) : s.steps limit [] = .ok s := rfl

theorem steps_cons (limit : Nat) (s : State) (t : Token) (ts : List Token) :
    s.steps limit (t :: ts) = (s.step limit t).bind (·.steps limit ts) := rfl

theorem steps_singleton (limit : Nat) (s : State) (t : Token) :
    s.steps limit [t] = s.step limit t := by
  rw [steps_cons]
  cases s.step limit t <;> rfl

theorem steps_append (limit : Nat) (s : State) (ts us : List Token) :
    s.steps limit (ts ++ us) = (s.steps limit ts).bind (·.steps limit us) := by
  unfold steps
  rw [List.foldlM_append]
  rfl

end State

theorem run_all (limit : Nat) (failure : Option Error) (ts : List Token) (s : State) :
    (run false limit failure s.room s.stack s.read ts).1 =
      (s.steps limit ts).bind (·.finish failure) := by
  induction ts generalizing s with
  | nil =>
    rw [State.steps_nil]
    simp only [run, Except.bind, State.finish]
    cases failure.or (endFault? s.stack) <;> rfl
  | cons t ts ih =>
    rw [State.steps_cons, State.step]
    simp only [run]
    cases take s.room s.stack t with
    | complete v => exact ih { room := limit, read := v :: s.read }
    | more room stack => exact ih ⟨room, stack, s.read⟩
    | fault e => rfl
    | blocked e => rfl

end Reader

open Reader

/-- What a lexed source reads as. -/
def Lexed.parsed (limit : Nat) (l : Lexed) : Except Error (List Value) :=
  (State.steps limit { room := limit } l.tokens).bind (·.finish l.failure)

theorem TokenStream.readAll_eq (limit : Nat) (s : TokenStream) :
    (s.readAll limit).1 = Lexed.parsed limit ⟨s.remaining, s.failure⟩ :=
  run_all limit s.failure s.remaining { room := limit }

theorem parse_eq (limit : Nat) (source : List Char) :
    parse limit source = (lex source).parsed limit :=
  (TokenStream.ofSource source).readAll_eq limit

/-- A token that is an expression wherever one may come. -/
def Token.Writes (t : Token) (v : Value) : Prop :=
  ∀ room stack, take room stack t = deliver room v stack

namespace Reader

/-! ## What a token can do -/

/-- The number of lists that are open. -/
def openLists : List Pending → Nat
  | [] => 0
  | .quoted :: stack => openLists stack
  | .list _ :: stack => openLists stack + 1

theorem deliver_cases (room : Nat) (v : Value) (stack : List Pending) :
    (openLists stack = 0 ∧ ∃ w, deliver room v stack = .complete w) ∨
      ∃ room' items stack', deliver room v stack = .more room' (.list items :: stack') ∧
        openLists stack = openLists stack' + 1 := by
  induction stack generalizing room v with
  | nil => exact Or.inl ⟨rfl, v, rfl⟩
  | cons p stack ih =>
    cases p with
    | quoted => exact ih (room + 1) _
    | list items => exact Or.inr ⟨room, v :: items, stack, rfl, rfl⟩

theorem ofWord_definite {word : List Char} {e : Error}
    (h : Literal.ofWord word = .error e) : e.IsDefinite := by
  unfold Literal.ofWord at h
  split at h
  · cases h
  · cases h
  · split at h
    · split at h
      · cases h
        exact Or.inl rfl
      · cases h
    · cases h
    · split at h
      · cases h
      · cases h
        exact Or.inr rfl

theorem descend_cases (room : Nat) (stack : List Pending) (p : Pending) :
    (∃ room', room = room' + 1 ∧ descend room stack p = .more room' (p :: stack)) ∨
      descend room stack p = .fault .depthExceeded := by
  cases room with
  | zero => exact Or.inr rfl
  | succ room => exact Or.inl ⟨room, rfl, rfl⟩

/-- No token is at fault for being the last. -/
theorem take_cases (room : Nat) (stack : List Pending) (t : Token) :
    (∃ room' v stack', take room stack t = deliver room' v stack' ∧
      room' + stack'.length = room + stack.length) ∨
    (∃ room' p, room = room' + 1 ∧ take room stack t = .more room' (p :: stack)) ∨
    ∃ e : Error, e.IsDefinite ∧
      (take room stack t = .fault e ∨ take room stack t = .blocked e) := by
  obtain ⟨kind, text⟩ := t
  unfold take
  cases kind with
  | atom =>
    cases h : Literal.ofWord text with
    | ok v => exact Or.inl ⟨room, v, stack, rfl, rfl⟩
    | error e => exact Or.inr (Or.inr ⟨e, ofWord_definite h, Or.inl rfl⟩)
  | string => exact Or.inl ⟨room, _, stack, rfl, rfl⟩
  | quote =>
    rcases descend_cases room stack .quoted with ⟨room', hr, h⟩ | h
    · exact Or.inr (Or.inl ⟨room', .quoted, hr, h⟩)
    · exact Or.inr (Or.inr ⟨_, Or.inr rfl, Or.inl h⟩)
  | openParen =>
    rcases descend_cases room stack (.list []) with ⟨room', hr, h⟩ | h
    · exact Or.inr (Or.inl ⟨room', .list [], hr, h⟩)
    · exact Or.inr (Or.inr ⟨_, Or.inr rfl, Or.inl h⟩)
  | closeParen =>
    cases stack with
    | nil => exact Or.inr (Or.inr ⟨_, Or.inl rfl, Or.inl rfl⟩)
    | cons p stack =>
      cases p with
      | quoted => exact Or.inr (Or.inr ⟨_, Or.inl rfl, Or.inr rfl⟩)
      | list items =>
        refine Or.inl ⟨room + 1, .list items.reverse, stack, rfl, ?_⟩
        simp only [List.length_cons]
        omega
  | other label => exact Or.inr (Or.inr ⟨_, Or.inl rfl, Or.inl rfl⟩)

/-! ## Levels

The levels that are left and the things that are open add up to the limit. -/

def State.Balanced (limit : Nat) (s : State) : Prop := s.room + s.stack.length = limit

theorem balanced_start (limit : Nat) : State.Balanced limit { room := limit } := rfl

theorem deliver_balanced {limit room : Nat} {v : Value} {stack : List Pending} {read : List Value}
    {s : State} (hb : room + stack.length = limit)
    (h : (deliver room v stack).next limit read = .ok s) : s.Balanced limit := by
  induction stack generalizing room v with
  | nil =>
    cases h
    exact balanced_start limit
  | cons p stack ih =>
    rw [List.length_cons] at hb
    cases p with
    | quoted => exact ih (by omega) h
    | list items =>
      cases h
      exact hb

theorem State.step_balanced {limit : Nat} {s s' : State} {t : Token} (hb : s.Balanced limit)
    (h : s.step limit t = .ok s') : s'.Balanced limit := by
  unfold State.Balanced at hb
  unfold State.step at h
  rcases take_cases s.room s.stack t with ⟨room, v, stack, ht, hr⟩ | ⟨room, p, hr, ht⟩ | ⟨e, -, ht⟩
  · rw [ht] at h
    exact deliver_balanced (by omega) h
  · rw [ht] at h
    cases h
    simp only [State.Balanced, List.length_cons]
    omega
  · rcases ht with ht | ht <;>
    · rw [ht] at h
      cases h

theorem State.steps_balanced {limit : Nat} {s s' : State} {ts : List Token}
    (hb : s.Balanced limit) (h : s.steps limit ts = .ok s') : s'.Balanced limit := by
  induction ts generalizing s with
  | nil =>
    cases h
    exact hb
  | cons t ts ih =>
    rw [State.steps_cons] at h
    obtain ⟨s₁, hs, hrest⟩ := bind_eq_ok h
    exact ih (State.step_balanced hb hs) hrest

/-! ## What is read stays read -/

/-- The state with expressions that were complete before. -/
def State.onto (s : State) (earlier : List Value) : State := { s with read := s.read ++ earlier }

theorem Step.next_onto (limit : Nat) (read earlier : List Value) (step : Step) :
    step.next limit (read ++ earlier) = (step.next limit read).map (·.onto earlier) := by
  cases step <;> rfl

theorem State.steps_onto (limit : Nat) (s : State) (earlier : List Value) (ts : List Token) :
    (s.onto earlier).steps limit ts = (s.steps limit ts).map (·.onto earlier) := by
  induction ts generalizing s with
  | nil => rfl
  | cons t ts ih =>
    have h : (s.onto earlier).step limit t = (s.step limit t).map (·.onto earlier) :=
      Step.next_onto limit s.read earlier (take s.room s.stack t)
    rw [steps_cons, steps_cons, h]
    cases s.step limit t with
    | error e => rfl
    | ok s₁ => exact ih s₁

theorem State.finish_onto (failure : Option Error) (s : State) (earlier : List Value) :
    (s.onto earlier).finish failure = (s.finish failure).map (earlier.reverse ++ ·) := by
  unfold State.finish State.onto
  cases failure.or (endFault? s.stack) with
  | some e => rfl
  | none => simp [Except.map]

/-! ## Whole expressions

Tokens are read as an expression if, wherever it stands, they come to what the expression does
there. They need levels of their own, and what they lack of these is what goes wrong. -/

/-- The tokens are read as `v`, on so many levels. -/
def Reads (limit : Nat) (ts : List Token) (v : Value) (levels : Nat) : Prop :=
  ∀ s : State, s.steps limit ts =
    if levels ≤ s.room then (deliver s.room v s.stack).next limit s.read
    else .error .depthExceeded

/-- The tokens are read as expressions one after the other. -/
inductive ReadsAll (limit : Nat) : List Token → List Value → Nat → Prop where
  | nil : ReadsAll limit [] [] 0
  | cons {ts us : List Token} {v : Value} {vs : List Value} {n m : Nat}
      (first : Reads limit ts v n) (rest : ReadsAll limit us vs m) :
      ReadsAll limit (ts ++ us) (v :: vs) (max n m)

variable {limit room levels : Nat} {ts : List Token} {v : Value} {vs : List Value}

theorem reads_single {t : Token} (h : t.Writes v) : Reads limit [t] v 0 := by
  intro s
  rw [if_pos (Nat.zero_le _), State.steps_singleton, State.step, h]

theorem Reads.quote (h : Reads limit ts v levels) (mark : List Char) :
    Reads limit (⟨.quote, mark⟩ :: ts) (.list [.sym .quote, v]) (levels + 1) := by
  intro ⟨room, stack, read⟩
  rw [State.steps_cons]
  cases room with
  | zero => rfl
  | succ room =>
    have hmark : State.step limit ⟨room + 1, stack, read⟩ ⟨.quote, mark⟩ =
        .ok ⟨room, .quoted :: stack, read⟩ := rfl
    rw [hmark]
    simp only [Except.bind]
    rw [h]
    by_cases hn : levels ≤ room
    · rw [if_pos hn, if_pos (by omega)]
      rfl
    · rw [if_neg hn, if_neg (by omega)]

theorem ReadsAll.steps {holds : List Value → State} (h : ReadsAll limit ts vs levels)
    (hroom : ∀ ws, (holds ws).room = room)
    (hholds : ∀ w ws, (deliver room w (holds ws).stack).next limit (holds ws).read =
      .ok (holds (w :: ws))) (earlier : List Value) :
    (holds earlier).steps limit ts =
      if levels ≤ room then .ok (holds (vs.reverse ++ earlier)) else .error .depthExceeded := by
  -- The states that are passed differ only in what was read so far.
  induction h generalizing earlier with
  | nil => rfl
  | @cons ts us v vs n m first rest ih =>
    rw [State.steps_append, first, hroom]
    by_cases hn : n ≤ room
    · rw [if_pos hn, hholds]
      simp only [Except.bind]
      rw [ih, List.reverse_cons, List.append_assoc, List.singleton_append]
      by_cases hm : m ≤ room
      · rw [if_pos hm, if_pos (by omega)]
      · rw [if_neg hm, if_neg (by omega)]
    · rw [if_neg hn, if_neg (by omega)]
      rfl

theorem ReadsAll.list (h : ReadsAll limit ts vs levels) (opening closing : List Char) :
    Reads limit (⟨.openParen, opening⟩ :: (ts ++ [⟨.closeParen, closing⟩])) (.list vs)
      (levels + 1) := by
  intro ⟨room, stack, read⟩
  rw [State.steps_cons]
  cases room with
  | zero => rfl
  | succ room =>
    have hopen : State.step limit ⟨room + 1, stack, read⟩ ⟨.openParen, opening⟩ =
        .ok ⟨room, .list [] :: stack, read⟩ := rfl
    have hitems := @ReadsAll.steps limit room levels ts vs
      (fun ws => ⟨room, .list ws :: stack, read⟩) h (fun _ => rfl) (fun _ _ => rfl) []
    rw [hopen]
    simp only [Except.bind]
    rw [State.steps_append, hitems]
    by_cases hn : levels ≤ room
    · rw [if_pos hn, if_pos (by omega)]
      simp only [Except.bind]
      rw [State.steps_singleton, List.append_nil]
      unfold State.step take
      simp only [List.reverse_reverse]
    · rw [if_neg hn, if_neg (by omega)]
      rfl

theorem ReadsAll.parsed (h : ReadsAll limit ts vs levels) :
    Lexed.parsed limit ⟨ts, none⟩ =
      if levels ≤ limit then .ok vs else .error .depthExceeded := by
  have hsteps := @ReadsAll.steps limit limit levels ts vs
    (fun ws => { room := limit, read := ws }) h (fun _ => rfl) (fun _ _ => rfl) []
  rw [Lexed.parsed, hsteps]
  split
  · simp [Except.bind, State.finish, endFault?]
  · rfl

/-! ## Incomplete input -/

theorem State.step_definite {limit : Nat} {s : State} {t : Token} {e : Error}
    (h : s.step limit t = .error e) : e.IsDefinite := by
  unfold State.step at h
  rcases take_cases s.room s.stack t with ⟨room, v, stack, ht, -⟩ | ⟨room, p, -, ht⟩ | ⟨e', he, ht⟩
  · rw [ht] at h
    rcases deliver_cases room v stack with ⟨-, w, hd⟩ | ⟨room', items, stack', hd, -⟩ <;>
    · rw [hd] at h
      cases h
  · rw [ht] at h
    cases h
  · rcases ht with ht | ht <;>
    · rw [ht] at h
      cases h
      exact he

theorem State.steps_definite {limit : Nat} {s : State} {ts : List Token} {e : Error}
    (h : s.steps limit ts = .error e) : e.IsDefinite := by
  induction ts generalizing s with
  | nil => cases h
  | cons t ts ih =>
    rw [State.steps_cons] at h
    cases hs : s.step limit t with
    | error e' =>
      rw [hs] at h
      cases h
      exact State.step_definite hs
    | ok s₁ =>
      rw [hs] at h
      exact ih h

theorem endFault_incomplete {stack : List Pending} {e : Error} (h : endFault? stack = some e) :
    e.isIncomplete = true := by
  cases stack with
  | nil => cases h
  | cons p stack => cases p <;> cases h <;> rfl

theorem endFault_eq_none {stack : List Pending} (h : endFault? stack = none) : stack = [] := by
  cases stack with
  | nil => rfl
  | cons p stack => cases p <;> cases h

end Reader

end Scheme
