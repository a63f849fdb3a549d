import Scheme.Proofs.Descent

/-!
# The reader follows the rules

The reader goes by the rules of descent, also where it fails.
-/

namespace Scheme

open Reader

namespace Reader

/-- Goes on reading after a token that did this. -/
def Step.resume (first : Bool) (limit : Nat) (read : List Value) (t : Token) (rest : List Token) :
    Step → Except Error (List Value) × TokenStream
  | .complete v =>
    if first then (.ok [v], .ofTokens rest) else run first limit none limit [] (v :: read) rest
  | .more room stack => run first limit none room stack read rest
  | .fault e => (.error e, .ofTokens rest)
  | .blocked e => (.error e, .looked (t :: rest))

theorem run_cons (first : Bool) (limit room : Nat) (stack : List Pending) (read : List Value)
    (t : Token) (rest : List Token) :
    run first limit none room stack read (t :: rest) =
      (take room stack t).resume first limit read t rest := by
  rw [run]
  cases take room stack t <;> rfl

theorem run_quote (first : Bool) (limit room : Nat) (stack : List Pending) (read : List Value)
    (mark : List Char) (ts : List Token) :
    run first limit none (room + 1) stack read (⟨.quote, mark⟩ :: ts) =
      run first limit none room (.quoted :: stack) read ts :=
  run_cons ..

theorem run_openParen (first : Bool) (limit room : Nat) (stack : List Pending) (read : List Value)
    (opening : List Char) (ts : List Token) :
    run first limit none (room + 1) stack read (⟨.openParen, opening⟩ :: ts) =
      run first limit none room (.list [] :: stack) read ts :=
  run_cons ..

end Reader

namespace TokenStream

namespace Descends

/-- A closing parenthesis may come first only where nothing is open. -/
def Admits (stack : List Pending) (ts : List Token) : Prop :=
  stack = [] ∨ ∀ t ∈ ts.head?, t.kind ≠ .closeParen

theorem admits_cons {t : Token} (h : t.kind ≠ .closeParen) {stack : List Pending}
    {ts : List Token} : Admits stack (t :: ts) := by
  refine Or.inr fun u hu => ?_
  cases hu
  exact h

/-- The reader does with the tokens what the rules say, whatever is open around them: it ends in the
same error and leaves the same stream, or it goes on behind them with what was read. -/
def Agrees (first : Bool) (limit room : Nat) (ts : List Token) (r : Except Error (List Value))
    (s' : TokenStream) : Goal → Prop
  | .one => ts ≠ [] →
    (∃ e, r = .error e ∧ ∀ stack read, Admits stack ts →
      run first limit none room stack read ts = (.error e, s')) ∨
    ∃ v, r = .ok [v] ∧ ∀ stack read, Admits stack ts → ∃ last,
      run first limit none room stack read ts =
        (deliver room v stack).resume first limit read last s'.remaining
  | .items =>
    (∃ e, r = .error e ∧ ∀ items stack read,
      run first limit none room (.list items :: stack) read ts = (.error e, s')) ∨
    ∃ vs, r = .ok vs ∧ ∀ items stack read, ∃ last,
      run first limit none room (.list items :: stack) read ts =
        (deliver (room + 1) (.list (items.reverse ++ vs)) stack).resume first limit read last
          s'.remaining
  | .all => first = false → room = limit → ∀ read,
    run first limit none room [] read ts = (r.map (read.reverse ++ ·), s')

namespace Agrees

variable {first : Bool} {limit room : Nat} {t : Token} {ts : List Token} {e : Error}
  {r : Except Error (List Value)} {s' : TokenStream}

theorem of_error (h : ∀ stack read, Admits stack ts →
    run first limit none room stack read ts = (.error e, s')) :
    Agrees first limit room ts (.error e) s' .one :=
  fun _ => Or.inl ⟨e, rfl, h⟩

theorem of_writes {v : Value} (h : t.Writes v) :
    Agrees first limit room (t :: ts) (.ok [v]) (ofTokens ts) .one := by
  refine fun _ => Or.inr ⟨v, rfl, fun stack read _ => ⟨t, ?_⟩⟩
  rw [run_cons, h]
  rfl

theorem atom (text : List Char) : Agrees first limit room (⟨.atom, text⟩ :: ts)
    ((Literal.ofWord text).map ([·])) (ofTokens ts) .one := by
  cases hword : Literal.ofWord text with
  | error e =>
    refine of_error fun stack read _ => ?_
    rw [run_cons]
    simp only [take, hword]
    rfl
  | ok v =>
    refine of_writes fun room stack => ?_
    simp only [take, hword]

theorem tooDeep (opens : t.kind = .quote ∨ t.kind = .openParen) :
    Agrees first limit 0 (t :: ts) (.error .depthExceeded) (ofTokens ts) .one := by
  obtain ⟨kind, text⟩ := t
  obtain rfl | rfl := opens <;>
  exact of_error fun stack read _ => run_cons ..

theorem quote (opens : t.kind ≠ .closeParen) (mark : List Char)
    (h : Agrees first limit room (t :: ts) r s' .one) :
    Agrees first limit (room + 1) (⟨.quote, mark⟩ :: t :: ts)
      (r.map fun vs => [.list (.sym .quote :: vs)]) s' .one := by
  rcases h (List.cons_ne_nil t ts) with ⟨e, rfl, hrun⟩ | ⟨v, rfl, hrun⟩
  · refine of_error fun stack read _ => ?_
    rw [run_quote]
    exact hrun (.quoted :: stack) read (admits_cons opens)
  · refine fun _ => Or.inr ⟨_, rfl, fun stack read _ => ?_⟩
    rw [run_quote]
    exact hrun (.quoted :: stack) read (admits_cons opens)

theorem list (opening : List Char) (h : Agrees first limit room ts r s' .items) :
    Agrees first limit (room + 1) (⟨.openParen, opening⟩ :: ts) (r.map fun vs => [.list vs]) s'
      .one := by
  rcases h with ⟨e, rfl, hrun⟩ | ⟨vs, rfl, hrun⟩
  · refine of_error fun stack read _ => ?_
    rw [run_openParen]
    exact hrun [] stack read
  · refine fun _ => Or.inr ⟨_, rfl, fun stack read _ => ?_⟩
    rw [run_openParen]
    exact hrun [] stack read

theorem closed (closes : t.kind = .closeParen) :
    Agrees first limit room (t :: ts) (.ok []) (ofTokens ts) .items := by
  obtain ⟨kind, text⟩ := t
  obtain rfl : kind = .closeParen := closes
  refine Or.inr ⟨[], rfl, fun items stack read => ⟨⟨.closeParen, text⟩, ?_⟩⟩
  rw [run_cons, List.append_nil]
  rfl

theorem finished : Agrees first limit room [] (.ok []) ended .all := by
  intro _ _ read
  simp only [run, endFault?, Except.map, List.append_nil]
  rfl

theorem stopped (wanted : goal.Wants t)
    (item : Agrees first limit room (t :: ts) (.error e) s' .one) :
    Agrees first limit room (t :: ts) (.error e) s' goal := by
  rcases item (List.cons_ne_nil t ts) with ⟨e', he, hrun⟩ | ⟨v, hv, -⟩
  · cases he
    cases goal with
    | one => exact absurd wanted id
    | items => exact Or.inl ⟨e, rfl, fun items stack read => hrun _ read (admits_cons wanted)⟩
    | all => exact fun _ _ read => hrun [] read (Or.inl rfl)
  · cases hv

theorem more {s₁ : TokenStream} {vs : List Value} (wanted : goal.Wants t)
    (item : Agrees first limit room (t :: ts) (.ok vs) s₁ .one)
    (rest : Agrees first limit room s₁.remaining r s' goal) :
    Agrees first limit room (t :: ts) (r.map (vs ++ ·)) s' goal := by
  rcases item (List.cons_ne_nil t ts) with ⟨e, he, -⟩ | ⟨v, hv, hrun⟩
  · cases he
  · cases hv
    cases goal with
    | one => exact absurd wanted id
    | items =>
      -- The expression goes to the list, and the rest of the list is read with it.
      have hitem (items : List Value) (stack : List Pending) (read : List Value) :
          run first limit none room (.list items :: stack) read (t :: ts) =
            run first limit none room (.list (v :: items) :: stack) read s₁.remaining := by
        obtain ⟨last, hlast⟩ := hrun (.list items :: stack) read (admits_cons wanted)
        exact hlast
      rcases rest with ⟨e, rfl, hrest⟩ | ⟨us, rfl, hrest⟩
      · refine Or.inl ⟨e, rfl, fun items stack read => ?_⟩
        rw [hitem, hrest]
      · refine Or.inr ⟨v :: us, rfl, fun items stack read => ?_⟩
        rw [hitem]
        have hgoes := hrest (v :: items) stack read
        rwa [List.reverse_cons, List.append_assoc, List.singleton_append] at hgoes
    | all =>
      rintro rfl rfl read
      obtain ⟨last, hlast⟩ := hrun [] read (Or.inl rfl)
      refine (hlast.trans (rest rfl rfl (v :: read))).trans ?_
      cases r with
      | error e => rfl
      | ok us => simp [Except.map]

end Agrees

theorem agrees (h : Descends goal room s r taken s') (hs : s.Regular) (first : Bool)
    (limit : Nat) : Agrees first limit room s.remaining r s' goal := by
  induction h with
  | nothing head =>
    intro hne
    exact absurd (advance_none hs head).1 hne
  | atom head =>
    obtain ⟨ts, hts, rfl⟩ := advance_some hs head
    rw [hts]
    exact Agrees.atom _
  | string head =>
    obtain ⟨ts, hts, rfl⟩ := advance_some hs head
    rw [hts]
    exact Agrees.of_writes fun _ _ => rfl
  | unexpected head =>
    obtain ⟨ts, hts, rfl⟩ := advance_some hs head
    rw [hts]
    refine Agrees.of_error fun stack read hstack => ?_
    rcases hstack with rfl | hopens
    · exact run_cons ..
    · exact absurd rfl (hopens _ rfl)
  | unknown head =>
    obtain ⟨ts, hts, rfl⟩ := advance_some hs head
    rw [hts]
    exact Agrees.of_error fun stack read _ => run_cons ..
  | tooDeep head opens =>
    obtain ⟨ts, hts, rfl⟩ := advance_some hs head
    rw [hts]
    exact Agrees.tooDeep opens
  | quoteEnd head next =>
    obtain ⟨ts, hts, rfl⟩ := advance_some hs head
    obtain ⟨hnil, rfl⟩ := peek_none (regular_ofTokens _) next
    obtain rfl : ts = [] := hnil
    rw [hts]
    exact Agrees.of_error fun stack read _ => run_quote ..
  | quoteClose head next =>
    obtain ⟨ts, hts, rfl⟩ := advance_some hs head
    obtain ⟨us, hus, rfl⟩ := peek_some (regular_ofTokens _) next
    obtain rfl : ts = _ := hus
    rw [hts]
    refine Agrees.of_error fun stack read _ => ?_
    rw [run_quote]
    exact run_cons ..
  | quote head next opens _ ih =>
    obtain ⟨ts, hts, rfl⟩ := advance_some hs head
    obtain ⟨us, hus, rfl⟩ := peek_some (regular_ofTokens _) next
    obtain rfl : ts = _ := hus
    rw [hts]
    exact Agrees.quote opens _ (ih (regular_looked _))
  | list head _ ih =>
    obtain ⟨ts, hts, rfl⟩ := advance_some hs head
    rw [hts]
    exact Agrees.list _ (ih (regular_ofTokens _))
  | unclosed next =>
    obtain ⟨hnil, rfl⟩ := peek_none hs next
    rw [hnil]
    exact Or.inl ⟨_, rfl, fun items stack read => rfl⟩
  | closed next closes last =>
    obtain ⟨ts, hts, rfl⟩ := peek_some hs next
    obtain ⟨us, hus, rfl⟩ := advance_some (regular_looked _) last
    rw [hts]
    cases hus
    exact Agrees.closed closes
  | finished next =>
    obtain ⟨hnil, rfl⟩ := peek_none hs next
    rw [hnil]
    exact Agrees.finished
  | stopped next wanted _ ih =>
    obtain ⟨ts, hts, rfl⟩ := peek_some hs next
    rw [hts]
    exact Agrees.stopped wanted (ih (regular_looked _))
  | more next wanted item _ ihItem ihRest =>
    obtain ⟨ts, hts, rfl⟩ := peek_some hs next
    rw [hts]
    exact Agrees.more wanted (ihItem (regular_looked _))
      (ihRest (item.remaining_eq (regular_looked _)).2)

end Descends

/-- The reader reads an expression by the rules. -/
theorem readExpr_descends (limit : Nat) {s : TokenStream} (hs : s.Regular) :
    ∃ r taken, (s.readExpr limit).1 = r.map List.head? ∧
      Descends .one limit s r taken (s.readExpr limit).2 := by
  cases hts : s.remaining with
  | nil =>
    have hread : s.readExpr limit = (.ok none, ended) := by
      rw [readExpr, hs.failure_eq, hts]
      rfl
    have hadvance := advance_eq hs
    rw [hts] at hadvance
    rw [hread]
    exact ⟨_, _, rfl, .nothing hadvance⟩
  | cons t ts =>
    obtain ⟨r, taken, s', h⟩ := Descends.settled hs .one limit
    have hread : s.readExpr limit = (r.map List.head?, s') := by
      have hne : s.remaining ≠ [] := by simp [hts]
      rw [readExpr, hs.failure_eq]
      rcases h.agrees hs true limit hne with ⟨e, rfl, hrun⟩ | ⟨v, rfl, hrun⟩
      · rw [hrun [] [] (Or.inl rfl)]
      · obtain ⟨last, hlast⟩ := hrun [] [] (Or.inl rfl)
        rw [hlast, h.left_eq hs rfl]
        rfl
    rw [hread]
    exact ⟨r, taken, rfl, h⟩

theorem readAll_descends (limit : Nat) {s : TokenStream} (hs : s.Regular) :
    ∃ taken, Descends .all limit s (s.readAll limit).1 taken (s.readAll limit).2 := by
  obtain ⟨r, taken, s', h⟩ := Descends.settled hs .all limit
  have hread : s.readAll limit = (r, s') := by
    rw [readAll, hs.failure_eq, h.agrees hs false limit rfl rfl []]
    cases r <;> rfl
  exact ⟨taken, by rw [hread]; exact h⟩

end TokenStream

end Scheme
