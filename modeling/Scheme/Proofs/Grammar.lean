import Scheme.Proofs.Prefix

/-!
# The grammar of expressions

Expressions are written by forests, and no tokens are those of two forests.
-/

namespace Scheme

open Reader

/-- A word that stands for something. -/
structure Word where
  text : List Char
  value : Value
  means : Literal.ofWord text = .ok value

theorem Word.eq_of_text {a b : Word} (h : a.text = b.text) : a = b := by
  obtain ⟨text, v, hv⟩ := a
  obtain ⟨text', w, hw⟩ := b
  obtain rfl : text = text' := h
  obtain rfl : v = w := Except.ok.inj (hv.symm.trans hw)
  rfl

/-- The text that a text with escapes stands for. A backslash and the character behind it stand for
one character, and a backslash at the end for itself. -/
inductive Resolves : List Char → List Char → Prop where
  | nil : Resolves [] []
  | plain {c : Char} {text written : List Char} (plain : c ≠ '\\') (rest : Resolves text written) :
      Resolves (c :: text) (c :: written)
  | newline {text written : List Char} (rest : Resolves text written) :
      Resolves ('\\' :: 'n' :: text) ('\n' :: written)
  | tab {text written : List Char} (rest : Resolves text written) :
      Resolves ('\\' :: 't' :: text) ('\t' :: written)
  | itself {c : Char} {text written : List Char} (newline : c ≠ 'n') (tab : c ≠ 't')
      (rest : Resolves text written) : Resolves ('\\' :: c :: text) (c :: written)
  | backslash : Resolves ['\\'] ['\\']

namespace Resolves

theorem eq_unescape {text written : List Char} (h : Resolves text written) :
    written = Literal.unescape text := by
  induction h with
  | nil | backslash => rfl
  | plain hplain _ ih =>
    rw [Literal.unescape, ← ih]
    exact fun _ _ hc _ => hplain hc
  | newline _ ih | tab _ ih => rw [Literal.unescape, ← ih, Literal.unescaped]
  | itself hn ht _ ih =>
    rw [Literal.unescape, ← ih, Literal.unescaped]
    · exact hn
    · exact ht

theorem unescape : ∀ text : List Char, Resolves text (Literal.unescape text)
  | [] => .nil
  | [c] => by
    by_cases hc : c = '\\'
    · subst hc
      exact .backslash
    · rw [Literal.unescape]
      · exact .plain hc .nil
      · exact fun _ _ h _ => hc h
  | c :: d :: rest => by
    by_cases hc : c = '\\'
    · subst hc
      rw [Literal.unescape, Literal.unescaped.eq_def]
      split
      · exact .newline (unescape rest)
      · exact .tab (unescape rest)
      · exact .itself (by assumption) (by assumption) (unescape rest)
    · rw [Literal.unescape]
      · exact .plain hc (unescape (d :: rest))
      · exact fun _ _ h _ => hc h

end Resolves

/-- The text of a string, and what is written between its first and its last character. -/
structure Quoted where
  text : List Char
  inside : List Char
  written : List Char
  around : (∃ first last, text = first :: (inside ++ [last])) ∨ text.length < 2 ∧ inside = []
  resolves : Resolves inside written

namespace Quoted

theorem inside_eq (q : Quoted) : q.inside = q.text.tail.dropLast := by
  rcases q.around with ⟨first, last, htext⟩ | ⟨hlength, hinside⟩
  · rw [htext, List.tail_cons, List.dropLast_concat]
  · rw [hinside]
    match q.text, hlength with
    | [], _ => rfl
    | [_], _ => rfl

theorem ofQuoted_text (q : Quoted) : Literal.ofQuoted q.text = String.ofList q.written := by
  rw [Literal.ofQuoted, ← q.inside_eq, q.resolves.eq_unescape]

theorem eq_of_text {p q : Quoted} (h : p.text = q.text) : p = q := by
  have hinside : p.inside = q.inside := by rw [p.inside_eq, q.inside_eq, h]
  have hwritten : p.written = q.written := by
    rw [p.resolves.eq_unescape, q.resolves.eq_unescape, hinside]
  obtain ⟨text, inside, written, _, _⟩ := p
  obtain ⟨text', inside', written', _, _⟩ := q
  obtain rfl : text = text' := h
  obtain rfl : inside = inside' := hinside
  obtain rfl : written = written' := hwritten
  rfl

theorem exists_text (text : List Char) : ∃ q : Quoted, q.text = text := by
  refine ⟨⟨text, text.tail.dropLast, _, ?_, .unescape _⟩, rfl⟩
  match text with
  | [] | [_] => exact Or.inr ⟨by simp, rfl⟩
  | first :: second :: rest =>
    refine Or.inl ⟨first, (second :: rest).getLast (List.cons_ne_nil _ _), ?_⟩
    rw [List.tail_cons, List.dropLast_concat_getLast]

end Quoted

theorem determined_items {α : Type} {code : α → List Token}
    (hcode : ∀ a closing ts us, code a ++ ts ≠ ⟨.closeParen, closing⟩ :: us) {items items' : List α}
    (h : ∀ a ∈ items, ∀ b ∈ items', ∀ ts us, code a ++ ts = code b ++ us → a = b ∧ ts = us)
    {closing closing' : List Char} {ts us : List Token}
    (heq : items.flatMap code ++ ⟨.closeParen, closing⟩ :: ts =
      items'.flatMap code ++ ⟨.closeParen, closing'⟩ :: us) :
    items = items' ∧ closing = closing' ∧ ts = us := by
  induction items generalizing items' with
  | nil =>
    cases items' with
    | nil => simpa using heq
    | cons b items' =>
      -- No item starts with a closing parenthesis.
      rw [List.flatMap_nil, List.nil_append, List.flatMap_cons, List.append_assoc] at heq
      exact absurd heq.symm (hcode b closing _ ts)
  | cons a items ih =>
    cases items' with
    | nil =>
      rw [List.flatMap_nil, List.nil_append, List.flatMap_cons, List.append_assoc] at heq
      exact absurd heq (hcode a closing' _ us)
    | cons b items' =>
      rw [List.flatMap_cons, List.flatMap_cons, List.append_assoc, List.append_assoc] at heq
      obtain ⟨rfl, hrest⟩ := h a List.mem_cons_self b List.mem_cons_self _ _ heq
      have hitems : ∀ a ∈ items, ∀ b ∈ items', ∀ ts us, code a ++ ts = code b ++ us →
          a = b ∧ ts = us :=
        fun a ha b hb => h a (List.mem_cons_of_mem _ ha) b (List.mem_cons_of_mem _ hb)
      obtain ⟨rfl, hclosing, hts⟩ := ih hitems hrest
      exact ⟨rfl, hclosing, hts⟩

/-- A tree keeps the texts of all its tokens, also of those that only mark its shape. -/
inductive Tree where
  | atom (word : Word)
  | string (quoted : Quoted)
  | quote (mark : List Char) (quoted : Tree)
  | list (opening : List Char) (items : List Tree) (closing : List Char)

namespace Tree

mutual

def tokens : Tree → List Token
  | .atom word => [⟨.atom, word.text⟩]
  | .string quoted => [⟨.string, quoted.text⟩]
  | .quote mark quoted => ⟨.quote, mark⟩ :: quoted.tokens
  | .list opening items closing =>
    ⟨.openParen, opening⟩ :: (tokensAll items ++ [⟨.closeParen, closing⟩])

def tokensAll : List Tree → List Token
  | [] => []
  | t :: ts => t.tokens ++ tokensAll ts

end

mutual

/-- The datum that a tree writes. -/
def value : Tree → Value
  | .atom word => word.value
  | .string quoted => .str (String.ofList quoted.written)
  | .quote _ quoted => .list [.sym .quote, quoted.value]
  | .list _ items _ => .list (valueAll items)

def valueAll : List Tree → List Value
  | [] => []
  | t :: ts => t.value :: valueAll ts

end

mutual

/-- How many lists and quotes are open at once. -/
def nesting : Tree → Nat
  | .atom _ | .string _ => 0
  | .quote _ quoted => quoted.nesting + 1
  | .list _ items _ => nestingAll items + 1

def nestingAll : List Tree → Nat
  | [] => 0
  | t :: ts => max t.nesting (nestingAll ts)

end

theorem induct {P : Tree → Prop} (atom : ∀ word, P (.atom word))
    (string : ∀ quoted, P (.string quoted))
    (quote : ∀ mark quoted, P quoted → P (.quote mark quoted))
    (list : ∀ opening items closing, (∀ t ∈ items, P t) → P (.list opening items closing)) :
    ∀ t, P t
  | .atom word => atom word
  | .string quoted => string quoted
  | .quote mark quoted => quote mark quoted (induct atom string quote list quoted)
  | .list opening items closing =>
    list opening items closing fun t _ => induct atom string quote list t

theorem tokensAll_append (ts us : List Tree) :
    tokensAll (ts ++ us) = tokensAll ts ++ tokensAll us := by
  induction ts with
  | nil => rfl
  | cons t ts ih => simp only [List.cons_append, tokensAll, ih, List.append_assoc]

theorem tokensAll_reverse_cons (t : Tree) (ts : List Tree) :
    tokensAll (t :: ts).reverse = tokensAll ts.reverse ++ t.tokens := by
  simp [tokensAll_append, tokensAll]

theorem valueAll_eq (ts : List Tree) : valueAll ts = ts.map value := by
  induction ts with
  | nil => rfl
  | cons t ts ih => rw [valueAll, ih, List.map_cons]

theorem valueAll_reverse (ts : List Tree) : valueAll ts.reverse = (valueAll ts).reverse := by
  simp [valueAll_eq]

/-! ## One forest at most

The tokens of a tree end where the tree ends, and a list of trees ends before the first closing
parenthesis that would have to start a tree. -/

/-- No tree starts with a closing parenthesis. -/
theorem tokens_append_ne (t : Tree) (closing : List Char) (ts us : List Token) :
    t.tokens ++ ts ≠ ⟨.closeParen, closing⟩ :: us := by
  cases t <;> simp [tokens]

/-- The first tree in front of some tokens is determined by them. -/
def Determined (t : Tree) : Prop :=
  ∀ (u : Tree) (ts us : List Token), t.tokens ++ ts = u.tokens ++ us → t = u ∧ ts = us

theorem tokensAll_eq (ts : List Tree) : tokensAll ts = ts.flatMap tokens := by
  induction ts with
  | nil => rfl
  | cons t ts ih => rw [tokensAll, ih, List.flatMap_cons]

theorem determined_forest {items : List Tree} (h : ∀ t ∈ items, t.Determined)
    {items' : List Tree} {closing closing' : List Char} {ts us : List Token}
    (heq : tokensAll items ++ ⟨.closeParen, closing⟩ :: ts =
      tokensAll items' ++ ⟨.closeParen, closing'⟩ :: us) :
    items = items' ∧ closing = closing' ∧ ts = us := by
  rw [tokensAll_eq, tokensAll_eq] at heq
  exact determined_items tokens_append_ne (fun t ht u _ => h t ht u) heq

theorem determined (t : Tree) : t.Determined := by
  induction t using induct with
  | atom word =>
    intro u ts us h
    cases u with
    | atom word' =>
      simp only [tokens, List.cons_append, List.nil_append, List.cons.injEq, Token.mk.injEq,
        true_and] at h
      exact ⟨congrArg Tree.atom (Word.eq_of_text h.1), h.2⟩
    | _ => simp [tokens] at h
  | string quoted =>
    intro u ts us h
    cases u with
    | string quoted' =>
      simp only [tokens, List.cons_append, List.nil_append, List.cons.injEq, Token.mk.injEq,
        true_and] at h
      exact ⟨congrArg Tree.string (Quoted.eq_of_text h.1), h.2⟩
    | _ => simp [tokens] at h
  | quote mark quoted ih =>
    intro u ts us h
    cases u with
    | quote mark' quoted' =>
      simp only [tokens, List.cons_append, List.cons.injEq, Token.mk.injEq, true_and] at h
      obtain ⟨rfl, hquoted⟩ := h
      obtain ⟨rfl, hts⟩ := ih quoted' ts us hquoted
      exact ⟨rfl, hts⟩
    | _ => simp [tokens] at h
  | list opening items closing ih =>
    intro u ts us h
    cases u with
    | list opening' items' closing' =>
      simp only [tokens, List.cons_append, List.append_assoc, List.nil_append, List.cons.injEq,
        Token.mk.injEq, true_and] at h
      obtain ⟨rfl, hitems⟩ := h
      obtain ⟨rfl, rfl, hts⟩ := determined_forest ih hitems
      exact ⟨rfl, hts⟩
    | _ => simp [tokens] at h

theorem tokensAll_injective {forest forest' : List Tree}
    (h : tokensAll forest = tokensAll forest') : forest = forest' := by
  -- With a closing parenthesis behind it, a forest is what a list holds.
  have hclosed : tokensAll forest ++ ⟨.closeParen, []⟩ :: [] =
      tokensAll forest' ++ ⟨.closeParen, []⟩ :: [] := by rw [h]
  exact (determined_forest (fun t _ => t.determined) hclosed).1

/-! ## Forests are accepted -/

theorem readsAll {limit : Nat} {forest : List Tree}
    (h : ∀ t ∈ forest, Reads limit t.tokens t.value t.nesting) :
    ReadsAll limit (tokensAll forest) (valueAll forest) (nestingAll forest) := by
  induction forest with
  | nil => exact .nil
  | cons t forest ih =>
    exact .cons (h t List.mem_cons_self) (ih fun u hu => h u (List.mem_cons_of_mem t hu))

theorem reads (limit : Nat) (t : Tree) : Reads limit t.tokens t.value t.nesting := by
  induction t using induct with
  | atom word =>
    apply reads_single
    intro room stack
    simp only [take, word.means, value]
  | string quoted =>
    have hwrites := string_writes quoted.text
    rw [quoted.ofQuoted_text] at hwrites
    exact reads_single hwrites
  | quote mark quoted ih => exact ih.quote mark
  | list opening items closing ih => exact (readsAll ih).list opening closing

/-! ## Nothing else is accepted

While it reads, the reader has grown trees: those that are complete, and the beginnings of those
that are not. -/

/-- What is open, with the trees that a list holds so far, latest first. -/
inductive Opened where
  | quoted (mark : List Char)
  | list (opening : List Char) (items : List Tree)

namespace Opened

def pending : Opened → Pending
  | .quoted _ => .quoted
  | .list _ items => .list (valueAll items)

def tokens : Opened → List Token
  | .quoted mark => [⟨.quote, mark⟩]
  | .list opening items => ⟨.openParen, opening⟩ :: tokensAll items.reverse

/-- The tokens of all that is open, innermost last. -/
def tokensAll : List Opened → List Token
  | [] => []
  | o :: outer => tokensAll outer ++ o.tokens

end Opened

/-- These tokens have led to this state, and this is what they have grown to. -/
def Grown (ts : List Token) (s : State) : Prop :=
  ∃ (forest : List Tree) (opened : List Opened),
    ts = tokensAll forest.reverse ++ Opened.tokensAll opened ∧
      s.stack = opened.map Opened.pending ∧ s.read = valueAll forest

theorem grown_deliver {limit room : Nat} {t : Tree} {forest : List Tree} {opened : List Opened}
    {s : State} (h : (deliver room t.value (opened.map Opened.pending)).next limit
      (valueAll forest) = .ok s) :
    Grown (tokensAll forest.reverse ++ (Opened.tokensAll opened ++ t.tokens)) s := by
  induction opened generalizing room t with
  | nil =>
    cases h
    refine ⟨t :: forest, [], ?_, rfl, rfl⟩
    rw [tokensAll_reverse_cons, Opened.tokensAll, List.nil_append, List.append_nil]
  | cons o outer ih =>
    cases o with
    | quoted mark =>
      -- The quote mark and the tree behind it are a tree in the place of the mark.
      have hquote := @ih (room + 1) (.quote mark t) h
      simpa [Opened.tokensAll, Opened.tokens, tokens] using hquote
    | list opening items =>
      cases h
      refine ⟨forest, .list opening (t :: items) :: outer, ?_, rfl, rfl⟩
      simp only [Opened.tokensAll, Opened.tokens, tokensAll_reverse_cons, List.cons_append,
        List.append_assoc]

theorem Grown.push {room : Nat} {forest : List Tree} {opened : List Opened} (o : Opened) :
    Grown (tokensAll forest.reverse ++ (Opened.tokensAll opened ++ o.tokens))
      ⟨room, o.pending :: opened.map Opened.pending, valueAll forest⟩ :=
  ⟨forest, o :: opened, rfl, rfl, rfl⟩

theorem Grown.step {limit : Nat} {ts : List Token} {s s' : State} {t : Token} (hs : Grown ts s)
    (h : s.step limit t = .ok s') : Grown (ts ++ [t]) s' := by
  obtain ⟨room, stack, read⟩ := s
  obtain ⟨forest, opened, rfl, rfl, rfl⟩ := hs
  obtain ⟨kind, text⟩ := t
  rw [List.append_assoc]
  unfold State.step take at h
  cases kind with
  | atom =>
    cases hword : Literal.ofWord text with
    | ok v =>
      simp only [hword] at h
      exact @grown_deliver limit room (.atom ⟨text, v, hword⟩) forest opened s' h
    | error e =>
      simp only [hword] at h
      cases h
  | string =>
    obtain ⟨quoted, rfl⟩ := Quoted.exists_text text
    rw [quoted.ofQuoted_text] at h
    exact @grown_deliver limit room (.string quoted) forest opened s' h
  | quote =>
    cases room with
    | zero => cases h
    | succ room =>
      cases h
      exact Grown.push (.quoted text)
  | openParen =>
    cases room with
    | zero => cases h
    | succ room =>
      cases h
      exact Grown.push (.list text [])
  | closeParen =>
    cases opened with
    | nil => cases h
    | cons o outer =>
      cases o with
      | quoted mark => cases h
      | list opening items =>
        simp only [List.map_cons, Opened.pending, ← valueAll_reverse] at h
        have hlist := @grown_deliver limit (room + 1) (.list opening items.reverse text) forest
          outer s' h
        simpa [Opened.tokensAll, Opened.tokens, tokens] using hlist
  | other label => cases h

theorem Grown.steps {limit : Nat} {earlier ts : List Token} {s s' : State} (hs : Grown earlier s)
    (h : s.steps limit ts = .ok s') : Grown (earlier ++ ts) s' := by
  induction ts generalizing earlier s with
  | nil =>
    cases h
    rw [List.append_nil]
    exact hs
  | cons t ts ih =>
    rw [State.steps_cons] at h
    obtain ⟨s₁, hstep, hrest⟩ := bind_eq_ok h
    have hall := ih (hs.step hstep) hrest
    rwa [List.append_assoc, List.singleton_append] at hall

theorem exists_forest {limit : Nat} {ts : List Token} {vs : List Value}
    (h : Lexed.parsed limit ⟨ts, none⟩ = .ok vs) :
    ∃ forest, tokensAll forest = ts ∧ valueAll forest = vs := by
  unfold Lexed.parsed at h
  obtain ⟨s, hsteps, hfinish⟩ := bind_eq_ok h
  obtain ⟨-, hstack, hread⟩ := finish_eq_ok hfinish
  have hstart : Grown [] { room := limit } := ⟨[], [], rfl, rfl, rfl⟩
  obtain ⟨forest, opened, hts, hopened, hforest⟩ := hstart.steps hsteps
  obtain rfl : opened = [] := List.map_eq_nil_iff.1 (hopened.symm.trans hstack)
  refine ⟨forest.reverse, ?_, ?_⟩
  · simpa [Opened.tokensAll] using hts.symm
  · rw [valueAll_reverse, ← hforest, hread, List.reverse_reverse]

end Tree

/-- **The reader accepts exactly its grammar.** -/
theorem TokenStream.readAll_eq_ok_iff (limit : Nat) (buffer incoming : List Token) :
    let s : TokenStream := { buffer, incoming }
    (∀ vs, (s.readAll limit).1 = .ok vs ↔
      ∃ forest, Tree.tokensAll forest = s.remaining ∧ Tree.nestingAll forest ≤ limit ∧
        Tree.valueAll forest = vs) ∧
    (∀ forest forest', Tree.tokensAll forest = s.remaining → Tree.tokensAll forest' = s.remaining →
      forest = forest') ∧
    ∀ forest, Tree.tokensAll forest = s.remaining → limit < Tree.nestingAll forest →
      (s.readAll limit).1 = .error .depthExceeded := by
  intro s
  have hread (forest : List Tree) (h : Tree.tokensAll forest = s.remaining) :
      (s.readAll limit).1 =
        if Tree.nestingAll forest ≤ limit then .ok (Tree.valueAll forest)
        else .error .depthExceeded := by
    rw [readAll_eq, ← h]
    exact (Tree.readsAll fun t _ => t.reads limit).parsed
  refine ⟨fun vs => ⟨fun h => ?_, ?_⟩, fun forest forest' h h' => ?_, fun forest h hlimit => ?_⟩
  · rw [readAll_eq] at h
    obtain ⟨forest, htokens, hvalues⟩ := Tree.exists_forest h
    refine ⟨forest, htokens, ?_, hvalues⟩
    by_cases hlimit : Tree.nestingAll forest ≤ limit
    · exact hlimit
    · have hfails := hread forest htokens
      rw [readAll_eq, if_neg hlimit] at hfails
      cases h.symm.trans hfails
  · rintro ⟨forest, htokens, hlimit, rfl⟩
    rw [hread forest htokens, if_pos hlimit]
  · exact Tree.tokensAll_injective (h.trans h'.symm)
  · rw [hread forest h, if_neg (Nat.not_le.2 hlimit)]

end Scheme
