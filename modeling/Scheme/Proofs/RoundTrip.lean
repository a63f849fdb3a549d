import Scheme.Proofs.Reading
import Scheme.Proofs.Written
import Scheme.Value.Nesting
import Scheme.Value.Occurs

/-!
# What is written reads back

The written form of a datum is lexed into its tokens, and they are read as the datum.
-/

namespace Scheme

open Reader

namespace Value

/-- A datum that is written in full: no procedure, and no symbol that looks like something else. -/
inductive Readable : Value → Prop where
  | bool (b : Bool) : Readable (.bool b)
  | int {n : Int} (digits : n.natAbs < 10 ^ Literal.maxDigits) : Readable (.num (.int n))
  | float {x : Float} (finite : x.isFinite = true) : Readable (.num (.float x))
  | str (s : String) : Readable (.str s)
  | sym {x : Symbol} (chars : ∀ c ∈ x.name.toList, isAtomChar c = true)
      (word : Literal.ofWord x.name.toList = .ok (.sym x)) : Readable (.sym x)
  | list {items : List Value} (items_readable : ∀ v ∈ items, Readable v) : Readable (.list items)

variable (describe : ClosureId → String)

mutual

/-- The tokens of the written form. -/
def tokens : Value → List Token
  | .list items => ⟨.openParen, ['(']⟩ :: (tokensAll items ++ [⟨.closeParen, [')']⟩])
  | .str s => [⟨.string, (writeString s).toList⟩]
  | v => [⟨.atom, (v.write describe).toList⟩]

def tokensAll : List Value → List Token
  | [] => []
  | v :: vs => v.tokens ++ tokensAll vs

end

theorem writeAll_eq (vs : List Value) : writeAll describe vs = vs.map (·.write describe) := by
  induction vs with
  | nil => rfl
  | cons v vs ih =>
    rw [writeAll, ih]
    rfl

/-! ## Lexing -/

/-- The written form of `v` is lexed into its tokens. -/
def Lexes (v : Value) : Prop :=
  ∀ ts rest, Lexer.EndsAtom rest →
    Lexer.lexed ⟨.gap, ts⟩ ((v.write describe).toList ++ rest) =
      Lexer.lexed ⟨.gap, (v.tokens describe).reverse ++ ts⟩ rest

variable {describe}

theorem lexes_atom {v : Value} (hne : (v.write describe).toList ≠ [])
    (hchars : ∀ c ∈ (v.write describe).toList, isAtomChar c = true)
    (htokens : v.tokens describe = [⟨.atom, (v.write describe).toList⟩]) : v.Lexes describe := by
  intro ts rest hrest
  rw [Lexer.lexed_atom hne hchars hrest, htokens]
  rfl

theorem lexed_spaced {items : List Value} (h : ∀ v ∈ items, v.Lexes describe) (ts : List Token)
    {rest : List Char} (hrest : Lexer.EndsAtom rest) :
    Lexer.lexed ⟨.gap, ts⟩ ((" ".intercalate (writeAll describe items)).toList ++ rest) =
      Lexer.lexed ⟨.gap, (tokensAll describe items).reverse ++ ts⟩ rest := by
  induction items generalizing ts with
  | nil => rfl
  | cons v vs ih =>
    have hv := h v List.mem_cons_self
    have hvs := ih fun w hw => h w (List.mem_cons_of_mem v hw)
    cases vs with
    | nil =>
      simp only [writeAll, String.intercalate_singleton, tokensAll, List.append_nil]
      exact hv ts rest hrest
    | cons w vs =>
      have hblank : Text.isBlank ' ' = true := by decide
      have hspace (text : List Char) : Lexer.EndsAtom (' ' :: text) := firstChar_cons (by decide) _
      simp only [writeAll] at hvs ⊢
      rw [String.intercalate_cons_cons, tokensAll]
      simp only [String.toList_append, List.append_assoc]
      rw [show " ".toList = [' '] by rfl, List.singleton_append, hv _ _ (hspace _),
        Lexer.lexed_blank hblank, hvs, List.reverse_append, List.append_assoc]

theorem lexes_list {items : List Value} (h : ∀ v ∈ items, v.Lexes describe) :
    (Value.list items).Lexes describe := by
  intro ts rest _
  have hclose : Lexer.EndsAtom (')' :: rest) := firstChar_cons (by decide) _
  rw [write, tokens]
  simp only [String.toList_append, List.append_assoc]
  rw [show "(".toList = ['('] by rfl, show ")".toList = [')'] by rfl, List.singleton_append,
    List.singleton_append, Lexer.lexed_openParen, lexed_spaced h _ hclose, Lexer.lexed_closeParen]
  simp

theorem Readable.lexes {v : Value} (h : v.Readable) : v.Lexes describe := by
  induction h with
  | bool b =>
    have hb : (write describe (.bool b)).toList = ['#', if b then 't' else 'f'] := by
      cases b <;> simp [write]
    refine lexes_atom (by simp [hb]) ?_ rfl
    rw [hb]
    exact List.all_eq_true.1 (by cases b <;> decide)
  | @int n _ => exact lexes_atom (writeInt_ne_nil n) (isAtomChar_writeInt n) rfl
  | float finite => exact lexes_atom (writeFloat_ne_nil finite) (isAtomChar_writeFloat finite) rfl
  | str s =>
    intro ts rest _
    exact lexed_writeString s ts rest
  | @sym x chars _ =>
    refine lexes_atom ?_ chars rfl
    intro hname
    exact x.name_ne (String.toList_eq_nil_iff.1 hname)
  | list _ ih => exact lexes_list ih

/-! ## Reading -/

/-- The reader puts `v` together from its tokens if there are levels enough, wherever it stands. -/
def Reads (describe : ClosureId → String) (limit : Nat) (v : Value) : Prop :=
  Reader.Reads limit (v.tokens describe) v v.nesting

theorem reads_atom {limit : Nat} {v : Value} (hnesting : v.nesting = 0)
    (htokens : v.tokens describe = [⟨.atom, (v.write describe).toList⟩])
    (hword : Literal.ofWord (v.write describe).toList = .ok v) : v.Reads describe limit := by
  rw [Reads, htokens, hnesting]
  apply reads_single
  intro room stack
  simp only [take, hword]

theorem readsAll_tokensAll {limit : Nat} {items : List Value}
    (h : ∀ v ∈ items, v.Reads describe limit) :
    ReadsAll limit (tokensAll describe items) items (nestingAll items) := by
  induction items with
  | nil => exact .nil
  | cons v items ih =>
    exact .cons (h v List.mem_cons_self) (ih fun w hw => h w (List.mem_cons_of_mem v hw))

theorem steps_tokensAll {limit room : Nat} {items : List Value} {holds : List Value → State}
    (hroom : ∀ vs, (holds vs).room = room)
    (hholds : ∀ v vs, (deliver room v (holds vs).stack).next limit (holds vs).read =
      .ok (holds (v :: vs)))
    (h : ∀ v ∈ items, v.Reads describe limit) (vs : List Value) :
    (holds vs).steps limit (tokensAll describe items) =
      if nestingAll items ≤ room then .ok (holds (items.reverse ++ vs))
      else .error .depthExceeded :=
  (readsAll_tokensAll h).steps hroom hholds vs

theorem reads_list {limit : Nat} {items : List Value} (h : ∀ v ∈ items, v.Reads describe limit) :
    (Value.list items).Reads describe limit :=
  (readsAll_tokensAll h).list ['('] [')']

end Value

/-- The text that a float is written as is read as the same float. -/
def ReadsBack (x : Float) : Prop :=
  ∀ negative ds exponent, Numeral.ofText? (writeFloat x).toList =
    some (.fraction negative ds exponent) → Numeral.toFloat negative ds exponent = x

theorem readsBack_of_toFloat {x : Float} {negative : Bool} {ds : List Nat} {exponent : Int}
    (ht : Numeral.ofText? (writeFloat x).toList = some (.fraction negative ds exponent))
    (hx : Numeral.toFloat negative ds exponent = x) : ReadsBack x := by
  intro negative' ds' exponent' h
  rw [ht] at h
  cases h
  exact hx

theorem ofWord_writeFloat {x : Float} (finite : x.isFinite = true) (host : ReadsBack x) :
    Literal.ofWord (writeFloat x).toList = .ok (.num (.float x)) := by
  obtain ⟨negative, ds, exponent, h⟩ := ofText?_writeFloat finite
  rw [ofWord_fraction h, host negative ds exponent h]

namespace Value

variable {describe : ClosureId → String}

theorem Readable.reads {v : Value} (h : v.Readable)
    (host : ∀ x, (Value.num (.float x)).Occurs v → ReadsBack x) (limit : Nat) :
    v.Reads describe limit := by
  induction h with
  | bool b =>
    refine reads_atom rfl rfl ?_
    cases b <;> simp [write, Literal.ofWord]
  | int digits => exact reads_atom rfl rfl (ofWord_writeInt digits)
  | float finite => exact reads_atom rfl rfl (ofWord_writeFloat finite (host _ .here))
  | str s =>
    intro st
    have hn : (Value.str s).nesting = 0 := rfl
    rw [tokens, hn, if_pos (by omega), State.steps_singleton]
    unfold State.step take
    simp only [ofQuoted_writeString]
  | sym _ word => exact reads_atom rfl rfl word
  | list _ ih => exact reads_list fun w hw => ih w hw fun x hx => host x (.item hw hx)

end Value

/-- **What is written reads back**, if the levels of nesting suffice. -/
theorem parse_write (describe : ClosureId → String) (limit : Nat) {ds : List Value}
    (readable : ∀ d ∈ ds, d.Readable)
    (host : ∀ d ∈ ds, ∀ x, (Value.num (.float x)).Occurs d → ReadsBack x) :
    parse limit (" ".intercalate (ds.map (·.write describe))).toList =
      if Value.nestingAll ds ≤ limit then .ok ds else .error .depthExceeded := by
  have hlex : lex (" ".intercalate (ds.map (·.write describe))).toList =
      ⟨Value.tokensAll describe ds, none⟩ := by
    have hd (d : Value) (hd : d ∈ ds) : d.Lexes describe := (readable d hd).lexes
    have h := Value.lexed_spaced hd [] (firstChar_nil _)
    rw [List.append_nil, Value.writeAll_eq] at h
    rw [Lexer.lex_eq]
    refine h.trans ?_
    simp [Lexer.lexed, Lexer.read, Lexer.finish]
  have hsteps := @Value.steps_tokensAll describe limit limit ds
    (fun vs => { room := limit, read := vs }) (fun _ => rfl) (fun _ _ => rfl)
    (fun d hd => (readable d hd).reads (host d hd) limit) []
  rw [parse_eq, hlex, Lexed.parsed, hsteps]
  split
  · simp [Except.bind, State.finish, endFault?]
  · rfl

/-- Data of every kind: `#t -12 1.5 "a\"\\b\n" x (quote (-2.5e-07 ()))`. -/
def mixedData : List Value :=
  [.bool true, .num (.int (-12)), .num (.float 1.5), .str "a\"\\b\n", .sym ⟨"x", by decide⟩,
    .list [.sym .quote, .list [.num (.float (-2.5e-07)), .list []]]]

theorem readable_mixedData : ∀ d ∈ mixedData, d.Readable := by
  have hq : (Value.sym .quote).Readable := .sym (List.all_eq_true.1 (by decide)) (by rfl)
  have hx : (Value.sym ⟨"x", by decide⟩).Readable :=
    .sym (List.all_eq_true.1 (by decide)) (by rfl)
  have h1 : (Value.num (.float 1.5)).Readable := .float (by decide +kernel)
  have h2 : (Value.num (.float (-2.5e-07))).Readable := .float (by decide +kernel)
  simp only [mixedData, List.forall_mem_cons]
  refine ⟨.bool true, .int (by decide +kernel), h1, .str _, hx, .list ?_, by simp⟩
  simp only [List.forall_mem_cons]
  refine ⟨hq, .list ?_, by simp⟩
  simp only [List.forall_mem_cons]
  exact ⟨h2, .list (by simp), by simp⟩

theorem readsBack_mixedData :
    ∀ d ∈ mixedData, ∀ x, (Value.num (.float x)).Occurs d → ReadsBack x := by
  have h1 : ReadsBack 1.5 :=
    @readsBack_of_toFloat 1.5 false [1, 5] (-1) (by decide +kernel) (by decide +kernel)
  have h2 : ReadsBack (-2.5e-07) :=
    @readsBack_of_toFloat (-2.5e-07) true [2, 5] (-8) (by decide +kernel) (by decide +kernel)
  have hlist {x : Float} {items : List Value}
      (h : ∀ v ∈ items, (Value.num (.float x)).Occurs v → ReadsBack x) :
      (Value.num (.float x)).Occurs (.list items) → ReadsBack x := by
    rintro (_ | ⟨mem, inside⟩)
    exact h _ mem inside
  suffices h : ∀ x, ∀ d ∈ mixedData, (Value.num (.float x)).Occurs d → ReadsBack x from
    fun d hd x => h x d hd
  intro x
  simp only [mixedData, List.forall_mem_cons]
  refine ⟨by rintro ⟨⟩, by rintro ⟨⟩, fun h => ?_, by rintro ⟨⟩, by rintro ⟨⟩, hlist ?_, by simp⟩
  · cases h
    exact h1
  · simp only [List.forall_mem_cons]
    refine ⟨by rintro ⟨⟩, hlist ?_, by simp⟩
    simp only [List.forall_mem_cons]
    refine ⟨fun h => ?_, hlist (by simp), by simp⟩
    cases h
    exact h2

theorem parse_write_mixedData :
    (∀ d ∈ mixedData, d.Readable) ∧
      (∀ d ∈ mixedData, ∀ x, (Value.num (.float x)).Occurs d → ReadsBack x) ∧
      parse 3 (" ".intercalate (mixedData.map (·.write fun _ => ""))).toList = .ok mixedData :=
  ⟨readable_mixedData, readsBack_mixedData,
    (parse_write (fun _ => "") 3 readable_mixedData readsBack_mixedData).trans (if_pos (by decide))⟩

end Scheme
