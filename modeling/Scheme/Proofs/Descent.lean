import Scheme.Proofs.Reading

/-!
# Reading by descent

What the reader reads with a stack can be told by rules without one.
-/

namespace Scheme

open Reader

namespace TokenStream

/-! ## Streams that do not break off

What such a stream does depends only on the tokens that are still to be taken, if no more than one
of them was looked at. So it stays. -/

structure Regular (s : TokenStream) : Prop where
  failure_eq : s.failure = none
  length_buffer : s.buffer.length ≤ 1

def ofTokens (ts : List Token) : TokenStream := { incoming := ts }

/-- The first of the tokens was looked at. -/
def looked (ts : List Token) : TokenStream := { buffer := ts.take 1, incoming := ts.tail }

theorem regular_ofTokens (ts : List Token) : (ofTokens ts).Regular := ⟨rfl, Nat.zero_le 1⟩

theorem regular_looked (ts : List Token) : (looked ts).Regular := ⟨rfl, List.length_take_le 1 ts⟩

@[simp] theorem remaining_ofTokens (ts : List Token) : (ofTokens ts).remaining = ts := rfl

@[simp] theorem remaining_looked (ts : List Token) : (looked ts).remaining = ts := by
  cases ts <;> rfl

theorem Regular.buffer_cases {s : TokenStream} (hs : s.Regular) :
    s = ofTokens s.incoming ∨ ∃ t, s = looked (t :: s.incoming) := by
  obtain ⟨buffer, incoming, failure⟩ := s
  obtain ⟨rfl, hbuffer⟩ := hs
  match buffer, hbuffer with
  | [], _ => exact Or.inl rfl
  | [t], _ => exact Or.inr ⟨t, rfl⟩

theorem advance_eq {s : TokenStream} (hs : s.Regular) :
    s.advance = (.ok s.remaining.head?, ofTokens s.remaining.tail) := by
  rcases hs.buffer_cases with h | ⟨t, h⟩
  · rw [h]
    cases s.incoming <;> rfl
  · rw [h]
    rfl

theorem peek_eq {s : TokenStream} (hs : s.Regular) :
    s.peek = (.ok s.remaining.head?, looked s.remaining) := by
  rcases hs.buffer_cases with h | ⟨t, h⟩
  · rw [h]
    cases s.incoming <;> rfl
  · rw [h]
    rfl

/-- Looking fills the buffer only where it is empty. -/
theorem Regular.peek {s : TokenStream} (hs : s.Regular) : s.peek.2.Regular := by
  rw [peek_eq hs]
  exact regular_looked _

theorem Regular.advance {s : TokenStream} (hs : s.Regular) : s.advance.2.Regular := by
  rw [advance_eq hs]
  exact regular_ofTokens _

section Regular

variable {s s' : TokenStream} {t : Token} (hs : s.Regular)
include hs

theorem advance_some (h : s.advance = (.ok (some t), s')) :
    ∃ ts, s.remaining = t :: ts ∧ s' = ofTokens ts := by
  rw [advance_eq hs, Prod.mk.injEq, Except.ok.injEq] at h
  obtain ⟨ts, hts⟩ := List.head?_eq_some_iff.1 h.1
  exact ⟨ts, hts, by rw [← h.2, hts, List.tail_cons]⟩

theorem advance_none (h : s.advance = (.ok none, s')) : s.remaining = [] ∧ s' = ofTokens [] := by
  rw [advance_eq hs, Prod.mk.injEq, Except.ok.injEq] at h
  have hnil := List.head?_eq_none_iff.1 h.1
  exact ⟨hnil, by rw [← h.2, hnil, List.tail_nil]⟩

theorem peek_some (h : s.peek = (.ok (some t), s')) :
    ∃ ts, s.remaining = t :: ts ∧ s' = looked (t :: ts) := by
  rw [peek_eq hs, Prod.mk.injEq, Except.ok.injEq] at h
  obtain ⟨ts, hts⟩ := List.head?_eq_some_iff.1 h.1
  exact ⟨ts, hts, by rw [← h.2, hts]⟩

theorem peek_none (h : s.peek = (.ok none, s')) : s.remaining = [] ∧ s' = looked [] := by
  rw [peek_eq hs, Prod.mk.injEq, Except.ok.injEq] at h
  have hnil := List.head?_eq_none_iff.1 h.1
  exact ⟨hnil, by rw [← h.2, hnil]⟩

end Regular

/-! ## The rules -/

/-- What is to be read. -/
inductive Goal where
  /-- the next expression, if there is one -/
  | one
  /-- what a list holds, behind its opening parenthesis -/
  | items
  /-- everything that is left -/
  | all

/-- An expression is read if this token comes next. -/
def Goal.Wants : Goal → Token → Prop
  | .one, _ => False
  | .items, t => t.kind ≠ .closeParen
  | .all, _ => True

/-- With so many levels, this is read from the stream, these tokens are taken from it, and this is
what it is afterwards. -/
inductive Descends : Goal → Nat → TokenStream → Except Error (List Value) → List Token →
    TokenStream → Prop where
  | nothing {room : Nat} {s s' : TokenStream} (head : s.advance = (.ok none, s')) :
      Descends .one room s (.ok []) [] s'
  | atom {room : Nat} {s s' : TokenStream} {text : List Char}
      (head : s.advance = (.ok (some ⟨.atom, text⟩), s')) :
      Descends .one room s ((Literal.ofWord text).map ([·])) [⟨.atom, text⟩] s'
  | string {room : Nat} {s s' : TokenStream} {text : List Char}
      (head : s.advance = (.ok (some ⟨.string, text⟩), s')) :
      Descends .one room s (.ok [.str (Literal.ofQuoted text)]) [⟨.string, text⟩] s'
  | unexpected {room : Nat} {s s' : TokenStream} {text : List Char}
      (head : s.advance = (.ok (some ⟨.closeParen, text⟩), s')) :
      Descends .one room s (.error .unexpectedClose) [⟨.closeParen, text⟩] s'
  | unknown {room : Nat} {s s' : TokenStream} {label : String} {text : List Char}
      (head : s.advance = (.ok (some ⟨.other label, text⟩), s')) :
      Descends .one room s (.error (.unknownToken label (String.ofList text)))
        [⟨.other label, text⟩] s'
  | tooDeep {s s' : TokenStream} {t : Token} (head : s.advance = (.ok (some t), s'))
      (opens : t.kind = .quote ∨ t.kind = .openParen) :
      Descends .one 0 s (.error .depthExceeded) [t] s'
  | quoteEnd {room : Nat} {s s₁ s₂ : TokenStream} {text : List Char}
      (head : s.advance = (.ok (some ⟨.quote, text⟩), s₁)) (next : s₁.peek = (.ok none, s₂)) :
      Descends .one (room + 1) s (.error .nothingAfterQuote) [⟨.quote, text⟩] s₂
  | quoteClose {room : Nat} {s s₁ s₂ : TokenStream} {text closing : List Char}
      (head : s.advance = (.ok (some ⟨.quote, text⟩), s₁))
      (next : s₁.peek = (.ok (some ⟨.closeParen, closing⟩), s₂)) :
      Descends .one (room + 1) s (.error .closeAfterQuote) [⟨.quote, text⟩] s₂
  | quote {room : Nat} {s s₁ s₂ s₃ : TokenStream} {text : List Char} {t : Token}
      {r : Except Error (List Value)} {ts : List Token}
      (head : s.advance = (.ok (some ⟨.quote, text⟩), s₁))
      (next : s₁.peek = (.ok (some t), s₂)) (opens : t.kind ≠ .closeParen)
      (quoted : Descends .one room s₂ r ts s₃) :
      Descends .one (room + 1) s (r.map fun vs => [.list (.sym .quote :: vs)])
        (⟨.quote, text⟩ :: ts) s₃
  | list {room : Nat} {s s₁ s₂ : TokenStream} {text : List Char} {r : Except Error (List Value)}
      {ts : List Token} (head : s.advance = (.ok (some ⟨.openParen, text⟩), s₁))
      (items : Descends .items room s₁ r ts s₂) :
      Descends .one (room + 1) s (r.map fun vs => [.list vs]) (⟨.openParen, text⟩ :: ts) s₂
  | unclosed {room : Nat} {s s' : TokenStream} (next : s.peek = (.ok none, s')) :
      Descends .items room s (.error .unclosedList) [] s'
  | closed {room : Nat} {s s₁ s₂ : TokenStream} {t : Token} (next : s.peek = (.ok (some t), s₁))
      (closes : t.kind = .closeParen) (last : s₁.advance = (.ok (some t), s₂)) :
      Descends .items room s (.ok []) [t] s₂
  | finished {room : Nat} {s s' : TokenStream} (next : s.peek = (.ok none, s')) :
      Descends .all room s (.ok []) [] s'
  | stopped {goal : Goal} {room : Nat} {s s₁ s₂ : TokenStream} {t : Token} {e : Error}
      {ts : List Token} (next : s.peek = (.ok (some t), s₁)) (wanted : goal.Wants t)
      (item : Descends .one room s₁ (.error e) ts s₂) : Descends goal room s (.error e) ts s₂
  | more {goal : Goal} {room : Nat} {s s₁ s₂ s₃ : TokenStream} {t : Token} {vs : List Value}
      {r : Except Error (List Value)} {ts us : List Token} (next : s.peek = (.ok (some t), s₁))
      (wanted : goal.Wants t) (item : Descends .one room s₁ (.ok vs) ts s₂)
      (rest : Descends goal room s₂ r us s₃) :
      Descends goal room s (r.map (vs ++ ·)) (ts ++ us) s₃

namespace Descends

variable {goal : Goal} {room limit : Nat} {s s' : TokenStream} {r : Except Error (List Value)}
  {taken : List Token}

/-! ## What is taken -/

theorem remaining_eq (h : Descends goal room s r taken s') (hs : s.Regular) :
    s.remaining = taken ++ s'.remaining ∧ s'.Regular := by
  induction h with
  | nothing head =>
    obtain ⟨hts, rfl⟩ := advance_none hs head
    exact ⟨hts, regular_ofTokens _⟩
  | atom head | string head | unexpected head | unknown head | tooDeep head =>
    obtain ⟨ts, hts, rfl⟩ := advance_some hs head
    exact ⟨hts, regular_ofTokens _⟩
  | quoteEnd head next =>
    obtain ⟨ts, hts, rfl⟩ := advance_some hs head
    obtain ⟨hnil, rfl⟩ := peek_none (regular_ofTokens _) next
    exact ⟨hts.trans (congrArg _ hnil), regular_looked _⟩
  | quoteClose head next =>
    obtain ⟨ts, hts, rfl⟩ := advance_some hs head
    obtain ⟨us, hus, rfl⟩ := peek_some (regular_ofTokens _) next
    exact ⟨hts.trans (congrArg _ hus), regular_looked _⟩
  | quote head next _ _ ih =>
    obtain ⟨ts, hts, rfl⟩ := advance_some hs head
    obtain ⟨us, hus, rfl⟩ := peek_some (regular_ofTokens _) next
    obtain ⟨hrest, hregular⟩ := ih (regular_looked _)
    exact ⟨hts.trans (congrArg _ (hus.trans hrest)), hregular⟩
  | list head _ ih =>
    obtain ⟨ts, hts, rfl⟩ := advance_some hs head
    obtain ⟨hrest, hregular⟩ := ih (regular_ofTokens _)
    exact ⟨hts.trans (congrArg _ hrest), hregular⟩
  | unclosed next | finished next =>
    obtain ⟨hnil, rfl⟩ := peek_none hs next
    exact ⟨hnil, regular_looked _⟩
  | closed next _ last =>
    obtain ⟨ts, hts, rfl⟩ := peek_some hs next
    obtain ⟨us, hus, rfl⟩ := advance_some (regular_looked _) last
    exact ⟨hts.trans hus, regular_ofTokens _⟩
  | stopped next _ _ ih =>
    obtain ⟨ts, hts, rfl⟩ := peek_some hs next
    obtain ⟨hitem, hregular⟩ := ih (regular_looked _)
    exact ⟨hts.trans hitem, hregular⟩
  | more next _ _ _ ihItem ihRest =>
    obtain ⟨ts, hts, rfl⟩ := peek_some hs next
    obtain ⟨hitem, hregular⟩ := ihItem (regular_looked _)
    obtain ⟨hrest, hregular'⟩ := ihRest hregular
    exact ⟨by rw [List.append_assoc, ← hrest, hts, ← hitem]; rfl, hregular'⟩

theorem taken_ne_nil (h : Descends goal room s r taken s') (hs : s.Regular)
    (hne : s.remaining ≠ []) : taken ≠ [] := by
  induction h with
  | nothing head => exact absurd (advance_none hs head).1 hne
  | unclosed next | finished next => exact absurd (peek_none hs next).1 hne
  | stopped next _ _ ih =>
    obtain ⟨ts, hts, rfl⟩ := peek_some hs next
    exact ih (regular_looked _) (List.cons_ne_nil _ ts)
  | more next _ _ _ ihItem _ =>
    obtain ⟨ts, hts, rfl⟩ := peek_some hs next
    exact List.append_ne_nil_of_left_ne_nil (ihItem (regular_looked _) (List.cons_ne_nil _ ts)) _
  | _ => exact List.cons_ne_nil _ _

/-- Behind what was read, nothing was looked at. -/
theorem left_eq (h : Descends goal room s r taken s') (hs : s.Regular) {vs : List Value}
    (hr : r = .ok vs) : s' = ofTokens s'.remaining := by
  induction h generalizing vs with
  | nothing head =>
    obtain ⟨-, rfl⟩ := advance_none hs head
    rfl
  | atom head | string head =>
    obtain ⟨ts, -, rfl⟩ := advance_some hs head
    rfl
  | quote head next _ _ ih =>
    obtain ⟨ts, -, rfl⟩ := advance_some hs head
    obtain ⟨us, -, rfl⟩ := peek_some (regular_ofTokens _) next
    obtain ⟨ws, hws, -⟩ := map_eq_ok hr
    exact ih (regular_looked _) hws
  | list head _ ih =>
    obtain ⟨ts, -, rfl⟩ := advance_some hs head
    obtain ⟨ws, hws, -⟩ := map_eq_ok hr
    exact ih (regular_ofTokens _) hws
  | closed next _ last =>
    obtain ⟨ts, -, rfl⟩ := peek_some hs next
    obtain ⟨us, -, rfl⟩ := advance_some (regular_looked _) last
    rfl
  | finished next =>
    obtain ⟨-, rfl⟩ := peek_none hs next
    rfl
  | more next _ item _ _ ihRest =>
    obtain ⟨ts, -, rfl⟩ := peek_some hs next
    obtain ⟨ws, hws, -⟩ := map_eq_ok hr
    exact ihRest (item.remaining_eq (regular_looked _)).2 hws
  | _ => cases hr

/-! ## Every stream can be read -/

/-- With whatever goal the stream is read, the rules come to an end. -/
def Settled (s : TokenStream) : Prop :=
  ∀ goal room, ∃ r taken s', Descends goal room s r taken s'

section Settled

variable (hs : s.Regular)
  (hrest : ∀ u : TokenStream, u.Regular → u.remaining.length < s.remaining.length → Settled u)
include hs hrest

theorem exists_one (room : Nat) : ∃ r taken s', Descends .one room s r taken s' := by
  have hadvance := advance_eq hs
  cases hr : s.remaining with
  | nil =>
    rw [hr] at hadvance
    exact ⟨_, _, _, .nothing hadvance⟩
  | cons t ts =>
    rw [hr] at hadvance hrest
    obtain ⟨kind, text⟩ := t
    cases kind with
    | atom => exact ⟨_, _, _, .atom hadvance⟩
    | string => exact ⟨_, _, _, .string hadvance⟩
    | closeParen => exact ⟨_, _, _, .unexpected hadvance⟩
    | other label => exact ⟨_, _, _, .unknown hadvance⟩
    | openParen =>
      cases room with
      | zero => exact ⟨_, _, _, .tooDeep hadvance (Or.inr rfl)⟩
      | succ room =>
        obtain ⟨r, taken, s', hitems⟩ :=
          hrest (ofTokens ts) (regular_ofTokens ts) (Nat.lt_succ_self _) .items room
        exact ⟨_, _, _, .list hadvance hitems⟩
    | quote =>
      cases room with
      | zero => exact ⟨_, _, _, .tooDeep hadvance (Or.inl rfl)⟩
      | succ room =>
        have hpeek : (ofTokens ts).peek = _ := peek_eq (regular_ofTokens ts)
        rcases ts with _ | ⟨⟨kind, text'⟩, ts⟩
        · exact ⟨_, _, _, .quoteEnd hadvance hpeek⟩
        · by_cases hclose : kind = .closeParen
          · subst hclose
            exact ⟨_, _, _, .quoteClose hadvance hpeek⟩
          · obtain ⟨r, taken, s', hquoted⟩ :=
              hrest (looked (⟨kind, text'⟩ :: ts)) (regular_looked _) (Nat.lt_succ_self _) .one room
            exact ⟨_, _, _, .quote hadvance hpeek hclose hquoted⟩

theorem exists_more {t : Token} {ts : List Token} (hts : s.remaining = t :: ts)
    (hwanted : goal.Wants t) (room : Nat) : ∃ r taken s', Descends goal room s r taken s' := by
  have hpeek := peek_eq hs
  rw [hts] at hpeek hrest
  have hlooked := regular_looked (t :: ts)
  obtain ⟨r, taken, s', hitem⟩ := exists_one hlooked hrest room
  cases r with
  | error e => exact ⟨_, _, _, .stopped hpeek hwanted hitem⟩
  | ok vs =>
    obtain ⟨hremaining, hregular⟩ := hitem.remaining_eq hlooked
    have hpos := List.length_pos_iff.2 (hitem.taken_ne_nil hlooked (List.cons_ne_nil t ts))
    have hlength := congrArg List.length hremaining
    rw [List.length_append] at hlength
    obtain ⟨r', taken', s'', hmore⟩ := hrest s' hregular
      (by rw [remaining_looked] at hlength; omega) goal room
    exact ⟨_, _, _, .more hpeek hwanted hitem hmore⟩

end Settled

theorem settled {s : TokenStream} (hs : s.Regular) : Settled s := by
  induction hn : s.remaining.length using Nat.strongRecOn generalizing s with
  | ind n ih =>
    subst hn
    have hrest (u : TokenStream) (hu : u.Regular)
        (hlt : u.remaining.length < s.remaining.length) : Settled u := ih _ hlt hu rfl
    intro goal room
    have hpeek := peek_eq hs
    cases goal with
    | one => exact exists_one hs hrest room
    | items =>
      cases hr : s.remaining with
      | nil =>
        rw [hr] at hpeek
        exact ⟨_, _, _, .unclosed hpeek⟩
      | cons t ts =>
        by_cases hclose : t.kind = .closeParen
        · rw [hr] at hpeek
          exact ⟨_, _, _, .closed hpeek hclose (advance_eq (regular_looked _))⟩
        · have hwanted : Goal.items.Wants t := hclose
          exact exists_more hs hrest hr hwanted room
    | all =>
      cases hr : s.remaining with
      | nil =>
        rw [hr] at hpeek
        exact ⟨_, _, _, .finished hpeek⟩
      | cons t ts =>
        have hwanted : Goal.all.Wants t := trivial
        exact exists_more hs hrest hr hwanted room

end Descends

end TokenStream

end Scheme
