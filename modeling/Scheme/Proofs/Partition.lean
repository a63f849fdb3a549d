import Scheme.Proofs.Scanning

/-!
# How a source is cut

A source is tokens with gaps between them, and the lexer finds the one way to cut it.
-/

namespace Scheme

open Scheme.Text

/-! ## Strings -/

/-- Between the quotes of a string a double quote stands only behind a backslash that escapes it. -/
inductive StringBody : List Char → Prop where
  | nil : StringBody []
  | plain {c : Char} {body : List Char} (noQuote : c ≠ '\x22') (noEscape : c ≠ '\\')
      (rest : StringBody body) : StringBody (c :: body)
  | escaped (c : Char) {body : List Char} (rest : StringBody body) : StringBody ('\\' :: c :: body)

/-- Behind an opening quote there is no quote that closes the string. -/
def NeverCloses (rest : List Char) : Prop :=
  ∀ body after, rest = body ++ '\x22' :: after → ¬ StringBody body

theorem StringBody.closeString? {body : List Char} (h : StringBody body) (after : List Char) :
    Scheme.closeString? (body ++ '\x22' :: after) = some (body ++ ['\x22'], after) := by
  induction h with
  | nil =>
    rw [List.nil_append, Scheme.closeString?.eq_def]
    rfl
  | plain noQuote noEscape rest ih =>
    rw [List.cons_append, Scheme.closeString?.eq_def]
    simp only [if_neg noQuote, if_neg noEscape, ih]
    rfl
  | escaped c rest ih =>
    rw [List.cons_append, List.cons_append, Scheme.closeString?.eq_def]
    simp only [ih]
    rfl

theorem stringBody_of_closeString? {s text after : List Char}
    (h : closeString? s = some (text, after)) :
    ∃ body, StringBody body ∧ text = body ++ ['\x22'] ∧ s = body ++ '\x22' :: after := by
  fun_induction closeString? s generalizing text with
  | case1 => cases h
  | case2 rest =>
    cases h
    exact ⟨[], .nil, rfl, rfl⟩
  | case3 => cases h
  | case4 d rest _ ih =>
    obtain ⟨⟨text', after'⟩, hclose, heq⟩ := Option.map_eq_some_iff.1 h
    cases heq
    obtain ⟨body, hbody, rfl, rfl⟩ := ih hclose
    exact ⟨'\\' :: d :: body, .escaped d hbody, rfl, rfl⟩
  | case5 c rest noQuote noEscape ih =>
    obtain ⟨⟨text', after'⟩, hclose, heq⟩ := Option.map_eq_some_iff.1 h
    cases heq
    obtain ⟨body, hbody, rfl, rfl⟩ := ih hclose
    exact ⟨c :: body, .plain noQuote noEscape hbody, rfl, rfl⟩

theorem closeString?_eq_none_iff {rest : List Char} :
    closeString? rest = none ↔ NeverCloses rest := by
  constructor
  · rintro h body after rfl hbody
    rw [hbody.closeString?] at h
    cases h
  · intro h
    cases hclose : closeString? rest with
    | none => rfl
    | some p =>
      obtain ⟨body, hbody, -, hrest⟩ := stringBody_of_closeString? hclose
      exact absurd hbody (h body p.2 hrest)

/-! ## Gaps and tokens -/

/-- Blanks and comments, with this behind them. A comment goes to the end of its line. -/
inductive Gap (rest : List Char) : List Char → Prop where
  | nil : Gap rest []
  | blank {c : Char} {gap : List Char} (isBlank : isBlank c = true) (more : Gap rest gap) :
      Gap rest (c :: gap)
  | comment {line gap : List Char} (oneLine : '\n' ∉ line)
      (ends : FirstChar (· = '\n') (gap ++ rest)) (more : Gap rest gap) :
      Gap rest (';' :: (line ++ gap))

/-- The token is as it should be, with this behind it. An atom goes as far as it can. -/
inductive Token.Fits (rest : List Char) : Token → Prop where
  | openParen : Fits rest ⟨.openParen, ['(']⟩
  | closeParen : Fits rest ⟨.closeParen, [')']⟩
  | quote : Fits rest ⟨.quote, ['\x27']⟩
  | string {body : List Char} (isBody : StringBody body) :
      Fits rest ⟨.string, '\x22' :: (body ++ ['\x22'])⟩
  | atom {word : List Char} (nonempty : word ≠ []) (chars : ∀ c ∈ word, isAtomChar c = true)
      (ends : Lexer.EndsAtom rest) : Fits rest ⟨.atom, word⟩

/-- The source is gap, token, gap, and so on up to a last gap, and then comes the rest. -/
inductive Cut (rest : List Char) : List Token → List Char → Prop where
  | done {gap : List Char} (isGap : Gap rest gap) : Cut rest [] (gap ++ rest)
  | token {gap after : List Char} {t : Token} {ts : List Token} (isGap : Gap (t.text ++ after) gap)
      (fits : t.Fits after) (more : Cut rest ts after) :
      Cut rest (t :: ts) (gap ++ (t.text ++ after))

/-! ## What is cut is lexed -/

theorem Gap.lex_append {gap rest : List Char} (h : Gap rest gap) :
    lex (gap ++ rest) = lex rest := by
  induction h with
  | nil => rfl
  | @blank c gap isBlank more ih =>
    rw [List.cons_append, ← ih]
    exact Lexer.lexed_blank isBlank [] (gap ++ rest)
  | @comment line gap oneLine ends more ih =>
    have hline : ∀ c ∈ line, (decide (c ≠ '\n')) = true := by
      intro c hc
      rw [decide_eq_true_eq]
      rintro rfl
      exact oneLine hc
    have hdrop : (line ++ (gap ++ rest)).dropWhile (· ≠ '\n') = gap ++ rest := by
      rw [List.dropWhile_append_of_pos hline]
      cases hafter : gap ++ rest with
      | nil => rfl
      | cons c after =>
        have hc : c = '\n' := ends c (by simp [hafter])
        rw [List.dropWhile_cons_of_neg (by simp [hc])]
    have hcomment := Lexer.lexed_comment [] (line ++ (gap ++ rest))
    rw [hdrop] at hcomment
    rw [← ih, List.cons_append, List.append_assoc]
    exact hcomment

theorem Token.Fits.lex_append {t : Token} {rest : List Char} (h : t.Fits rest) :
    lex (t.text ++ rest) = ⟨t :: (lex rest).tokens, (lex rest).failure⟩ := by
  cases h with
  | openParen => exact (Lexer.lexed_openParen [] rest).trans (Lexer.lexed_gap _ rest)
  | closeParen => exact (Lexer.lexed_closeParen [] rest).trans (Lexer.lexed_gap _ rest)
  | quote => exact Lexer.lexed_gap [⟨.quote, ['\x27']⟩] rest
  | @string body isBody =>
    have hstring := Lexer.lexed_string ['\x22'] [] (body ++ '\x22' :: rest)
    rw [isBody.closeString?] at hstring
    have hsource : '\x22' :: (body ++ ['\x22']) ++ rest = '\x22' :: (body ++ '\x22' :: rest) := by
      simp
    rw [hsource]
    exact (Lexer.lexed_quotationMark [] _).trans (hstring.trans (Lexer.lexed_gap _ rest))
  | atom nonempty chars ends =>
    exact (Lexer.lexed_atom nonempty chars ends []).trans (Lexer.lexed_gap _ rest)

theorem Cut.lex_eq {source rest : List Char} {ts : List Token} (h : Cut rest ts source) :
    lex source = ⟨ts ++ (lex rest).tokens, (lex rest).failure⟩ := by
  induction h with
  | done isGap => exact isGap.lex_append
  | token isGap fits more ih =>
    rw [isGap.lex_append, fits.lex_append, ih]
    rfl

theorem lex_neverCloses {rest : List Char} (h : NeverCloses rest) :
    lex ('\x22' :: rest) = ⟨[], some .unterminatedString⟩ := by
  have hstring := Lexer.lexed_string ['\x22'] [] rest
  rw [closeString?_eq_none_iff.2 h] at hstring
  exact (Lexer.lexed_quotationMark [] rest).trans hstring

/-! ## Every source can be cut -/

theorem Cut.blank {c : Char} (h : isBlank c = true) {source rest : List Char} {ts : List Token}
    (hcut : Cut rest ts source) : Cut rest ts (c :: source) := by
  cases hcut with
  | done isGap => exact .done (.blank h isGap)
  | token isGap fits more => exact .token (.blank h isGap) fits more

theorem Cut.blanks {blanks : List Char} (h : ∀ c ∈ blanks, isBlank c = true)
    {source rest : List Char} {ts : List Token} (hcut : Cut rest ts source) :
    Cut rest ts (blanks ++ source) := by
  induction blanks with
  | nil => exact hcut
  | cons c blanks ih =>
    obtain ⟨hc, hblanks⟩ := List.forall_mem_cons.1 h
    exact (ih hblanks).blank hc

theorem Cut.comment {line : List Char} (h : '\n' ∉ line) {source rest : List Char}
    (hends : FirstChar (· = '\n') source) {ts : List Token} (hcut : Cut rest ts source) :
    Cut rest ts (';' :: (line ++ source)) := by
  cases hcut with
  | @done gap isGap =>
    have hdone := Cut.done (.comment h hends isGap)
    rwa [List.cons_append, List.append_assoc] at hdone
  | @token gap after t ts isGap fits more =>
    have htoken := Cut.token (.comment h hends isGap) fits more
    rwa [List.cons_append, List.append_assoc] at htoken

/-- What a piece at the front of a source is, and what comes after it. -/
def Piece.Front (source after : List Char) : Piece → Prop
  | .blanks => ∃ blanks, source = blanks ++ after ∧ ∀ c ∈ blanks, isBlank c = true
  | .comment => ∃ line, source = ';' :: (line ++ after) ∧ '\n' ∉ line ∧ FirstChar (· = '\n') after
  | .token t => source = t.text ++ after ∧ t.Fits after
  | .openString => source = '\x22' :: after ∧ NeverCloses after

theorem front_of_piece {c : Char} {rest after : List Char} {p : Piece}
    (h : piece? c rest = some (p, after)) : p.Front (c :: rest) after := by
  unfold piece? at h
  split at h
  · rename_i hblank
    cases h
    refine ⟨c :: rest.takeWhile isBlank, by simp, List.forall_mem_cons.2 ⟨hblank, ?_⟩⟩
    exact List.all_eq_true.1 List.all_takeWhile
  split at h
  · rename_i hcomment
    cases h
    subst hcomment
    refine ⟨rest.takeWhile (· ≠ '\n'), by simp, ?_, ?_⟩
    · intro hmem
      have hline := List.all_eq_true.1 List.all_takeWhile _ hmem
      simp at hline
    · intro d hd
      simpa using firstChar_dropWhile (· ≠ '\n') rest d hd
  split at h
  · rename_i hopen
    cases h
    subst hopen
    exact ⟨rfl, .openParen⟩
  split at h
  · rename_i hclose
    cases h
    subst hclose
    exact ⟨rfl, .closeParen⟩
  split at h
  · rename_i hquote
    cases h
    subst hquote
    exact ⟨rfl, .quote⟩
  split at h
  · rename_i hstring
    subst hstring
    cases hclose : closeString? rest with
    | some q =>
      obtain ⟨text, after'⟩ := q
      rw [hclose] at h
      cases h
      obtain ⟨body, hbody, rfl, rfl⟩ := stringBody_of_closeString? hclose
      exact ⟨by simp, .string hbody⟩
    | none =>
      rw [hclose] at h
      cases h
      exact ⟨rfl, closeString?_eq_none_iff.1 hclose⟩
  split at h
  · rename_i hatom
    cases h
    refine ⟨by simp, .atom (by simp) (List.forall_mem_cons.2 ⟨hatom, ?_⟩) ?_⟩
    · exact List.all_eq_true.1 List.all_takeWhile
    · exact firstChar_dropWhile isAtomChar rest
  · cases h

theorem exists_cut (source : List Char) :
    ∃ ts rest, Cut rest ts source ∧
      (rest = [] ∨ ∃ after, rest = '\x22' :: after ∧ NeverCloses after) := by
  fun_induction Risky.scan source with
  | case1 => exact ⟨[], [], .done .nil, Or.inl rfl⟩
  | case2 c rest hnone =>
    obtain ⟨p, after, hpiece, -⟩ := exists_piece c rest
    cases hpiece.symm.trans hnone
  | case3 c rest after hopen =>
    obtain ⟨hsource, hnever⟩ := front_of_piece hopen
    rw [hsource]
    exact ⟨[], _, .done .nil, Or.inr ⟨after, rfl, hnever⟩⟩
  | case4 c rest t after htoken _ _ _ ih =>
    obtain ⟨ts, rest', hcut, hend⟩ := ih
    obtain ⟨hsource, hfits⟩ := front_of_piece htoken
    rw [hsource]
    exact ⟨t :: ts, rest', .token .nil hfits hcut, hend⟩
  | case5 c rest after hblanks ih =>
    obtain ⟨ts, rest', hcut, hend⟩ := ih
    obtain ⟨blanks, hsource, hall⟩ := front_of_piece hblanks
    rw [hsource]
    exact ⟨ts, rest', hcut.blanks hall, hend⟩
  | case6 c rest after hcomment ih =>
    obtain ⟨ts, rest', hcut, hend⟩ := ih
    obtain ⟨line, hsource, hline, hends⟩ := front_of_piece hcomment
    rw [hsource]
    exact ⟨ts, rest', hcut.comment hline hends, hend⟩

/-- **The lexer cuts a source in the one way there is.** -/
theorem lex_eq_iff_cut (source : List Char) :
    (∀ ts, lex source = ⟨ts, none⟩ ↔ Cut [] ts source) ∧
    (∀ ts, lex source = ⟨ts, some .unterminatedString⟩ ↔
      ∃ after, Cut ('\x22' :: after) ts source ∧ NeverCloses after) ∧
    ((lex source).failure = none ∨ (lex source).failure = some .unterminatedString) ∧
    Error.unterminatedString.isIncomplete = true ∧
    Risky.scan source = ((lex source).tokens, (lex source).failure.map .error) := by
  have hdone {ts : List Token} (h : Cut [] ts source) : lex source = ⟨ts, none⟩ := by
    have hlex := h.lex_eq
    rwa [show lex [] = ⟨[], none⟩ from rfl, List.append_nil] at hlex
  have hopen {ts : List Token} {after : List Char} (h : Cut ('\x22' :: after) ts source)
      (hnever : NeverCloses after) : lex source = ⟨ts, some .unterminatedString⟩ := by
    have hlex := h.lex_eq
    rwa [lex_neverCloses hnever, List.append_nil] at hlex
  obtain ⟨ts', rest, hcut, rfl | ⟨after, rfl, hnever⟩⟩ := exists_cut source
  · have hlex := hdone hcut
    refine ⟨fun ts => ⟨?_, hdone⟩, fun ts => ⟨?_, ?_⟩, Or.inl (by rw [hlex]), rfl, ?_⟩
    · intro h
      cases hlex.symm.trans h
      exact hcut
    · intro h
      cases hlex.symm.trans h
    · rintro ⟨after, h, hnever⟩
      exact hopen h hnever
    · exact Risky.scan_eq source
  · have hlex := hopen hcut hnever
    refine ⟨fun ts => ⟨?_, hdone⟩, fun ts => ⟨?_, ?_⟩, Or.inr (by rw [hlex]), rfl, ?_⟩
    · intro h
      cases hlex.symm.trans h
    · intro h
      cases hlex.symm.trans h
      exact ⟨after, hcut, hnever⟩
    · rintro ⟨after', h, hnever'⟩
      exact hopen h hnever'
    · exact Risky.scan_eq source

example : lex "a\"(;\\\"\"b ;\"\n'".toList =
    ⟨[⟨.atom, ['a']⟩, ⟨.string, "\"(;\\\"\"".toList⟩, ⟨.atom, ['b']⟩, ⟨.quote, ['\x27']⟩],
      none⟩ := by
  decide +kernel

end Scheme
