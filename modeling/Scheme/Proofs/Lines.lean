import Mathlib.Data.List.TakeWhile
import Scheme.Proofs.Output
import Scheme.Proofs.Prefix

/-!
# Lines and whole texts

What the shell holds back is always the part of the text that is not complete.
-/

namespace Scheme

/-! ## Blank lines -/

theorem isBlank_of_trim {line : List Char} (h : Text.trim line = []) :
    ∀ c ∈ line, Text.isBlank c = true := by
  unfold Text.trim Text.trimBy at h
  rw [List.reverse_eq_nil_iff, List.dropWhile_eq_nil_iff] at h
  cases hd : line.dropWhile Text.isBlank with
  | nil => exact List.dropWhile_eq_nil_iff.1 hd
  | cons c rest =>
    have hblank : Text.isBlank c = true := h c (by simp [hd])
    have hhead := List.head?_dropWhile_not Text.isBlank line
    rw [hd, List.head?_cons] at hhead
    exact absurd (hblank.symm.trans hhead) (by decide)

theorem parse_blank (limit : Nat) {line : List Char} (h : Text.trim line = []) :
    parse limit (line ++ ['\n']) = .ok [] := by
  have hblank : ∀ c ∈ line ++ ['\n'], Text.isBlank c = true := by
    intro c hc
    rcases List.mem_append.1 hc with hc | hc
    · exact isBlank_of_trim h c hc
    · rw [List.mem_singleton.1 hc]
      exact Lexer.isBlank_newline
  rw [parse_eq, Lexer.lex_eq, Lexer.lexed, Lexer.read_blanks hblank]
  rfl

/-! ## Evaluating a text -/

open Eval (Runs Entry)

theorem Session.eval_runs {s : Session} {source : String} (hquiet : s.store.output = "")
    (h : (s.eval source).1.isOk = true) :
    ∃ exprs entries, parse s.limit source.toList = .ok exprs ∧
      Runs s.depth globalFrame s.store exprs entries (s.eval source).2.store.cleared ∧
      (s.eval source).2.store.output = Eval.displayed entries := by
  unfold Session.eval at h ⊢
  cases hparse : parse s.limit source.toList with
  | error e =>
    rw [hparse] at h
    cases h
  | ok exprs =>
    rw [hparse] at h
    simp only [Session.evalExprs, Session.perform, EStateM.run] at h ⊢
    cases hrun : Eval.evalSequence (Eval.run s.depth) globalFrame .unspecified exprs s.store with
    | error e s' =>
      rw [hrun] at h
      cases h
    | ok v s' =>
      rw [← s.store.prepend_empty] at hrun
      obtain ⟨entries, t, hruns, rfl⟩ := Eval.runs_of_evalSequence hrun
      have hout := hruns.output_eq hquiet
      have hcleared : (t.prepend ("" ++ Eval.displayed entries)).cleared = t := by
        simp [Store.prepend, Store.cleared, ← hout]
      refine ⟨exprs, entries, rfl, ?_, ?_⟩
      · simp only
        rw [hcleared]
        exact hruns
      · simp [Store.prepend, hout]

/-- There is room to print each value that the text evaluates to. -/
def Session.fits (s : Session) (source : List Char) : Bool :=
  match parse s.limit source with
  | .error _ => false
  | .ok exprs =>
    match Eval.evalEach (Eval.run s.depth) globalFrame exprs s.store with
    | .error .. => false
    | .ok vs _ => vs.all fun v => v.isUnspecified || v.nesting ≤ s.depth

theorem Session.fits_of_runs {s : Session} {source : List Char} {exprs : List Value}
    {entries : List Entry} {t : Store} (hfits : s.fits source = true)
    (hparse : parse s.limit source = .ok exprs)
    (hruns : Runs s.depth globalFrame s.store exprs entries t) :
    ∀ e ∈ entries, e.Fits s.depth := by
  obtain ⟨t', hvalues⟩ := hruns.evalEach_eq ""
  rw [s.store.prepend_empty] at hvalues
  simp only [fits, hparse, hvalues, List.all_map, List.all_eq_true] at hfits
  intro e he
  simpa [Entry.Fits] using hfits e he

@[simp] theorem Reply.out_append (a b : Reply) : (a ++ b).out = a.out ++ b.out := rfl

@[simp] theorem Reply.err_append (a b : Reply) : (a ++ b).err = a.err ++ b.err := rfl

/-! ## The shell, line by line -/

namespace Shell

def feedEach (s : Shell) : List (List Char) → Reply × Shell
  | [] => ({}, s)
  | line :: rest =>
    let (reply, next) := s.feed line
    let (replies, last) := next.feedEach rest
    (reply ++ replies, last)

/-- All that is read once the line is there. -/
def source (s : Shell) (line : List Char) : List Char := s.pending ++ line ++ ['\n']

/-- The expressions that are evaluated when the line is there. -/
def evaluated (s : Shell) (line : List Char) : List Value :=
  match parse s.session.limit (s.source line) with
  | .ok exprs => exprs
  | .error _ => []

/-- The expressions that are evaluated with each of the lines. -/
def evaluatedEach (s : Shell) : List (List Char) → List (List Value)
  | [] => []
  | line :: rest => s.evaluated line :: (s.feed line).2.evaluatedEach rest

def text (lines : List (List Char)) : List Char := lines.flatMap (· ++ ['\n'])

/-- The line is not one of the commands. -/
def IsSource (s : Shell) (line : List Char) : Prop :=
  Text.trim line ≠ ['E', 'O', 'F'] ∧ (s.pending = [] → Text.trim line ≠ ['h', 'e', 'l', 'p'])

/-- The prompt that asks for what comes behind the pending source. -/
def due (settings : Settings) (pending : List Char) : String :=
  if pending.isEmpty then settings.prompt else settings.continuationPrompt

/-- What is pending is the beginning of an expression, and the prompt asks for the rest. -/
structure Consistent (s : Shell) : Prop where
  prompted : s.prompt = due s.settings s.pending
  incomplete : s.pending = [] ∨
    ∃ e, parse s.session.limit s.pending = .error e ∧ e.isIncomplete = true

/-- Nothing has been displayed that was not put out, and the shell waits for the rest of what is
pending. -/
structure Waiting (s : Shell) : Prop extends s.Consistent where
  quiet : s.session.store.output = ""

/-- The shell after a run: the store is another, and so is the source that is pending, with the
prompt that is due. -/
def moved (s : Shell) (store : Store) (pending : List Char) : Shell :=
  { s with session := { s.session with store }, pending, prompt := due s.settings pending }

variable {s : Shell} {line : List Char} {es : List Value} {entries : List Entry} {t : Store}

theorem Waiting.moved_nil (h : s.Waiting) (hpending : s.pending = []) :
    s.moved s.session.store [] = s := by
  have hprompt := h.prompted
  rw [hpending] at hprompt
  rw [moved, ← hprompt, ← hpending]

theorem evalExprs_of_runs (hquiet : s.session.store.output = "")
    (h : Runs s.session.depth Session.globalFrame s.session.store es entries t)
    (hroom : ∀ e ∈ entries, e.Fits s.session.depth) :
    s.evalExprs es = ({ out := Eval.transcript entries },
      { s with session := { s.session with store := t } }) := by
  have hprint := h.printEach_eq hroom ""
  have hout := h.output_eq hquiet
  have hcleared : { t with output := "" } = t := by rw [← hout]
  rw [s.session.store.prepend_empty] at hprint
  simp [evalExprs, Session.perform, EStateM.run, hprint, takeOutput, Session.takeOutput,
    Store.prepend, hout, hcleared]

theorem readSource_of_incomplete {e : Error}
    (h : parse s.session.limit (s.source line) = .error e) (he : e.isIncomplete = true) :
    s.readSource line = ({}, s.moved s.session.store (s.source line)) := by
  have hdue : due s.settings (s.source line) = s.settings.continuationPrompt := by
    simp [due, source]
  rw [moved, hdue]
  unfold source at h
  simp only [readSource, h, he, if_true]
  rfl

theorem readSource_of_ok (hquiet : s.session.store.output = "")
    (hparse : parse s.session.limit (s.source line) = .ok es)
    (h : Runs s.session.depth Session.globalFrame s.session.store es entries t)
    (hroom : ∀ e ∈ entries, e.Fits s.session.depth) :
    (s.readSource line).2 = s.moved t [] ∧ (s.readSource line).1.out = Eval.transcript entries ∧
      (s.settings.verbose = false → (s.readSource line).1.err = "") := by
  have heval := @evalExprs_of_runs { s with pending := [], prompt := s.settings.prompt }
    es entries t hquiet h hroom
  unfold source at hparse
  simp only [readSource, hparse, heval]
  refine ⟨rfl, by simp, ?_⟩
  intro hverbose
  simp [Settings.log, hverbose]

theorem parse_source_blank (hpending : s.pending = []) (hblank : Text.trim line = []) :
    parse s.session.limit (s.source line) = .ok [] := by
  rw [source, hpending, List.nil_append, parse_blank s.session.limit hblank]

theorem feed_source (h : s.IsSource line) :
    s.feed line = if s.pending = [] ∧ Text.trim line = [] then ({}, s) else s.readSource line := by
  obtain ⟨hend, hhelp⟩ := h
  unfold feed
  rw [if_neg hend]
  by_cases hpending : s.pending = []
  · by_cases hblank : Text.trim line = []
    · simp [hpending, hblank]
    · simp [hpending, hblank, hhelp hpending]
  · simp [hpending]

theorem feed_of_ok (hsource : s.IsSource line) (hwaiting : s.Waiting)
    (hparse : parse s.session.limit (s.source line) = .ok es)
    (h : Runs s.session.depth Session.globalFrame s.session.store es entries t)
    (hroom : ∀ e ∈ entries, e.Fits s.session.depth) :
    (s.feed line).2 = s.moved t [] ∧ (s.feed line).1.out = Eval.transcript entries ∧
      (s.settings.verbose = false → (s.feed line).1.err = "") := by
  rw [feed_source hsource]
  split
  · -- The line is passed over, and there is nothing in it to evaluate.
    rename_i hpassed
    obtain ⟨hpending, hblank⟩ := hpassed
    rw [parse_source_blank hpending hblank] at hparse
    obtain rfl := Except.ok.inj hparse
    obtain _ | _ := h
    exact ⟨(hwaiting.moved_nil hpending).symm, rfl, fun _ => rfl⟩
  · exact readSource_of_ok hwaiting.quiet hparse h hroom

theorem feed_of_incomplete {e : Error} (hsource : s.IsSource line)
    (h : parse s.session.limit (s.source line) = .error e) (he : e.isIncomplete = true) :
    s.feed line = ({}, s.moved s.session.store (s.source line)) := by
  rw [feed_source hsource]
  split
  · rename_i hpassed
    obtain ⟨hpending, hblank⟩ := hpassed
    rw [parse_source_blank hpending hblank] at h
    cases h
  · exact readSource_of_incomplete h he

/-! ## All lines -/

theorem text_cons (line : List Char) (rest : List (List Char)) :
    s.pending ++ text (line :: rest) = s.source line ++ text rest := by
  simp [text, source]

theorem feedEach_of_runs {lines : List (List Char)} (hwaiting : s.Waiting)
    (hsource : ∀ earlier line later, lines = earlier ++ line :: later →
      (s.feedEach earlier).2.IsSource line)
    (hparse : parse s.session.limit (s.pending ++ text lines) = .ok es)
    (h : Runs s.session.depth Session.globalFrame s.session.store es entries t)
    (hroom : ∀ e ∈ entries, e.Fits s.session.depth) :
    (s.evaluatedEach lines).flatten = es ∧ (s.feedEach lines).2 = s.moved t [] ∧
      (s.feedEach lines).1.out = Eval.transcript entries ∧
      (s.settings.verbose = false → (s.feedEach lines).1.err = "") := by
  induction lines generalizing s es entries with
  | nil =>
    rw [text, List.flatMap_nil, List.append_nil] at hparse
    obtain hpending | ⟨e, he, -⟩ := hwaiting.incomplete
    · rw [hpending] at hparse
      obtain rfl := Except.ok.inj hparse
      obtain _ | _ := h
      exact ⟨rfl, (hwaiting.moved_nil hpending).symm, rfl, fun _ => rfl⟩
    · rw [he] at hparse
      cases hparse
  | cons line rest ih =>
    have hline : s.IsSource line := hsource [] line rest rfl
    have hlines : EndsLine (s.source line) := ⟨s.pending ++ line, rfl⟩
    have hlater : ∀ earlier line' later, rest = earlier ++ line' :: later →
        ((s.feed line).2.feedEach earlier).2.IsSource line' := by
      rintro earlier line' later rfl
      exact hsource (line :: earlier) line' later rfl
    rw [text_cons] at hparse
    cases hread : parse s.session.limit (s.source line) with
    | ok first =>
      rw [parse_append_of_ok hlines hread] at hparse
      obtain ⟨more, hmore, rfl⟩ := map_eq_ok hparse
      obtain ⟨before, after, u, rfl, hbefore, hafter⟩ := h.of_append
      obtain ⟨hroom, hroom'⟩ := List.forall_mem_append.1 hroom
      obtain ⟨hnext, hout, herr⟩ := feed_of_ok hline hwaiting hread hbefore hroom
      rw [hnext] at hlater
      have hwaiting' : (s.moved u []).Waiting :=
        ⟨⟨rfl, Or.inl rfl⟩, hbefore.output_eq hwaiting.quiet⟩
      obtain ⟨heval, hlast, hout', herr'⟩ := ih hwaiting' hlater hmore hafter hroom'
      simp only [evaluatedEach, feedEach, evaluated, hread, hnext]
      refine ⟨?_, hlast, ?_, fun hverbose => ?_⟩
      · rw [List.flatten_cons, heval]
      · simp [hout, hout', Eval.transcript]
      · simp [herr hverbose, herr' hverbose]
    | error e =>
      cases he : e.isIncomplete with
      | false =>
        rw [parse_append_of_fault hlines hread he] at hparse
        cases hparse
      | true =>
        have hfeed := feed_of_incomplete hline hread he
        rw [hfeed] at hlater
        have hwaiting' : (s.moved s.session.store (s.source line)).Waiting :=
          ⟨⟨rfl, Or.inr ⟨e, hread, he⟩⟩, hwaiting.quiet⟩
        obtain ⟨heval, hlast, hout, herr⟩ := ih hwaiting' hlater hparse h hroom
        simp only [evaluatedEach, feedEach, evaluated, hread, hfeed]
        refine ⟨heval, hlast, ?_, fun hverbose => ?_⟩
        · simp [hout]
        · simp [herr hverbose]

/-- **Line by line is as good as all at once.** -/
theorem feedEach_agrees (limit : Nat) (shared : Nat → Sharing) (settings : Settings)
    (lines : List (List Char)) (hend : ∀ line ∈ lines, Text.trim line ≠ ['E', 'O', 'F'])
    (hhelp : ∀ earlier line later, lines = earlier ++ line :: later →
      ((start limit shared settings).feedEach earlier).2.pending = [] →
        Text.trim line ≠ ['h', 'e', 'l', 'p'])
    (hok : ((Session.start limit shared).eval (String.ofList (text lines))).1.isOk = true) :
    let session := Session.start limit shared
    let store := (session.eval (String.ofList (text lines))).2.store
    let answer := (start limit shared settings).feedEach lines
    ∃ exprs entries, parse limit (text lines) = .ok exprs ∧
      Runs session.depth Session.globalFrame session.store exprs entries store.cleared ∧
      store.output = Eval.displayed entries ∧
      ((∀ e ∈ entries, e.Fits session.depth) →
        ((start limit shared settings).evaluatedEach lines).flatten = exprs ∧
        answer.2 = (start limit shared settings).moved store.cleared [] ∧
        answer.1.out = Eval.transcript entries ∧
        (settings.verbose = false → answer.1.err = "")) := by
  have hsource : ∀ earlier line later, lines = earlier ++ line :: later →
      ((start limit shared settings).feedEach earlier).2.IsSource line := by
    intro earlier line later hlines
    refine ⟨hend line ?_, hhelp earlier line later hlines⟩
    rw [hlines]
    simp
  have hwaiting : (start limit shared settings).Waiting := ⟨⟨rfl, Or.inl rfl⟩, rfl⟩
  obtain ⟨exprs, entries, hparse, hruns, hout⟩ := Session.eval_runs rfl hok
  rw [String.toList_ofList] at hparse
  exact ⟨exprs, entries, hparse, hruns, hout,
    fun hroom => feedEach_of_runs hwaiting hsource hparse hruns hroom⟩

/-- A string over three lines, a comment, and a call that begins behind another expression. -/
def spanningLines : List (List Char) :=
  ["(define s \"a".toList, [], "b\") (display s)".toList, " ; nothing".toList,
    "s ((lambda (n)".toList, "(+ n 1)) 2)".toList]

theorem feedEach_agrees_spanningLines :
    ((Session.fresh 100).eval (String.ofList (text spanningLines))).1.isOk = true ∧
      ((fresh 100 {}).feedEach spanningLines).2.pending = [] ∧
      ((fresh 100 {}).feedEach spanningLines).1.err = "" ∧
      ((fresh 100 {}).feedEach spanningLines).1.out = "a\n\nb\"a\\n\\nb\"\n3\n" := by
  have hend : ∀ line ∈ spanningLines, Text.trim line ≠ ['E', 'O', 'F'] := by decide +kernel
  have hhelp : ∀ line ∈ spanningLines, Text.trim line ≠ ['h', 'e', 'l', 'p'] := by decide +kernel
  have hfits : (Session.fresh 100).fits (text spanningLines) = true := by decide +kernel
  have hok : ((Session.fresh 100).eval (String.ofList (text spanningLines))).1.isOk = true := by
    decide +kernel
  have hout : ((fresh 100 {}).feedEach spanningLines).1.out = "a\n\nb\"a\\n\\nb\"\n3\n" := by
    decide +kernel
  unfold Session.fresh at hfits hok
  unfold fresh at hout
  unfold Session.fresh fresh
  obtain ⟨exprs, entries, hparse, hruns, -, hagrees⟩ :=
    feedEach_agrees 100 (fun _ _ => false) {} spanningLines hend (fun earlier line later h _ =>
      hhelp line (by rw [h]; simp)) hok
  obtain ⟨-, hlast, -, herr⟩ := hagrees (Session.fits_of_runs hfits hparse hruns)
  refine ⟨hok, ?_, herr rfl, hout⟩
  rw [hlast]
  rfl

end Shell

end Scheme
