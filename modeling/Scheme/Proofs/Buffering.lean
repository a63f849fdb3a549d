import Mathlib.Data.List.Induction
import Scheme.Proofs.Code
import Scheme.Proofs.Lines

/-!
# What the shell holds back

A line that breaks off joins what is held back, and every other line empties it.
-/

namespace Scheme

theorem Error.IsDefinite.malformed_or {e : Error} (h : e.IsDefinite) (hfault : e.IsFault) :
    e.kind? = some .malformed ∨ e = .depthExceeded := by
  obtain ⟨hkind | rfl, -⟩ := hfault.announced
  · obtain h | h := h
    · exact Or.inl h
    · simp [h] at hkind
  · exact Or.inr rfl

theorem Error.IsFault.announcement {e : Error} (h : e.IsFault) :
    ∃ message, e.condition.announcement? = some message := by
  obtain ⟨hkind | rfl, -⟩ := h.announced
  · obtain ⟨kind, hkind⟩ := Option.isSome_iff_exists.1 hkind
    unfold condition
    split
    · exact ⟨_, rfl⟩
    · exact ⟨_, rfl⟩
    · rename_i hnone
      simp [hkind] at hnone
  · exact ⟨_, rfl⟩

namespace Shell

variable {s : Shell} {line : List Char}

/-! ## One line -/

/-- The shell with nothing held back. -/
def emptied (s : Shell) : Shell := { s with pending := [], prompt := s.settings.prompt }

/-- The shell that holds back one line more. -/
def holding (s : Shell) (line : List Char) : Shell :=
  { s with pending := s.source line, prompt := s.settings.continuationPrompt }

theorem fail_of_announcement {e : Error} {message : String}
    (h : e.condition.announcement? = some message) (s : Shell) :
    s.fail e = ({ err := s.reporter.line message ++
        s.settings.log "reporting" ("reported " ++ e.condition.title) },
      { s with reporter := { s.reporter with failed := true } }) := by
  unfold fail Reporter.handle
  simp [h, Reporter.report]

theorem evalExprs_kept (s : Shell) (es : List Value) :
    ∃ session reporter, (s.evalExprs es).2 = { s with session, reporter } ∧
      session.limit = s.session.limit := by
  have hlimit :=
    s.session.limit_perform (Eval.printEach s.session.depth Session.globalFrame es)
  unfold evalExprs
  generalize s.session.perform _ = answer at hlimit
  obtain ⟨_ | _, session⟩ := answer
  · exact ⟨_, _, rfl, hlimit⟩
  · exact ⟨_, s.reporter, rfl, hlimit⟩

/-- What becomes of a line that does not end the session. -/
inductive Takes (s : Shell) (line : List Char) : Reply × Shell → Prop where
  | passed (pending : s.pending = []) (blank : Text.trim line = []) : Takes s line ({}, s)
  | helped (pending : s.pending = []) (asked : Text.trim line = ['h', 'e', 'l', 'p']) :
      Takes s line ({ out := help }, s)
  | held (e : Error) (parsed : parse s.session.limit (s.source line) = .error e)
      (incomplete : e.isIncomplete = true) : Takes s line ({}, s.holding line)
  | refused (e : Error) (parsed : parse s.session.limit (s.source line) = .error e)
      (definite : e.isIncomplete = false) : Takes s line (s.emptied.fail e)
  | taken (es : List Value) (parsed : parse s.session.limit (s.source line) = .ok es) :
      Takes s line
        ({ err := s.settings.log "shell" ("read " ++ writeInt es.length ++ " expression(s)") } ++
          (s.emptied.evalExprs es).1, (s.emptied.evalExprs es).2)

theorem readSource_takes (s : Shell) (line : List Char) : s.Takes line (s.readSource line) := by
  unfold readSource
  cases hparsed : parse s.session.limit (s.source line) with
  | error e =>
    unfold source at hparsed
    simp only [hparsed]
    by_cases he : e.isIncomplete = true
    · rw [if_pos he]
      exact .held e hparsed he
    · rw [if_neg he]
      exact .refused e hparsed (by simpa using he)
  | ok es =>
    unfold source at hparsed
    simp only [hparsed]
    exact .taken es hparsed

theorem feed_takes (s : Shell) (h : Text.trim line ≠ ['E', 'O', 'F']) :
    s.Takes line (s.feed line) := by
  unfold feed
  rw [if_neg h]
  split
  · exact readSource_takes s line
  · rename_i hpending
    have hpending : s.pending = [] := by simpa using hpending
    split
    · exact .passed hpending (List.isEmpty_iff.1 ‹_›)
    · split
      · exact .helped hpending ‹_›
      · exact readSource_takes s line

theorem feed_of_fault {e : Error} (hsource : s.IsSource line)
    (h : parse s.session.limit (s.source line) = .error e) (he : e.isIncomplete = false) :
    s.feed line = s.emptied.fail e := by
  rw [feed_source hsource]
  split
  · rename_i hpassed
    obtain ⟨hpending, hblank⟩ := hpassed
    rw [parse_source_blank hpending hblank] at h
    cases h
  · unfold source at h
    simp only [readSource, h, he]
    rfl

variable {answer : Reply × Shell}

theorem Takes.kept (h : s.Takes line answer) :
    answer.2.settings = s.settings ∧ answer.2.session.limit = s.session.limit ∧
      answer.2.ended = s.ended := by
  cases h with
  | taken es =>
    obtain ⟨session, reporter, hkept, hlimit⟩ := s.emptied.evalExprs_kept es
    rw [hkept]
    exact ⟨rfl, hlimit, rfl⟩
  | _ => exact ⟨rfl, rfl, rfl⟩

theorem Takes.cases (h : s.Takes line answer) (hs : s.Consistent) :
    (answer.2.pending = [] ∧ answer.2.prompt = s.settings.prompt) ∨
      (answer = ({}, s.holding line) ∧
        ∃ e, parse s.session.limit (s.source line) = .error e ∧ e.isIncomplete = true) := by
  have hprompt (hpending : s.pending = []) : s.prompt = s.settings.prompt := by
    simp [hs.prompted, due, hpending]
  cases h with
  | passed hpending => exact Or.inl ⟨hpending, hprompt hpending⟩
  | helped hpending => exact Or.inl ⟨hpending, hprompt hpending⟩
  | held e hparsed hincomplete => exact Or.inr ⟨rfl, e, hparsed, hincomplete⟩
  | refused e => exact Or.inl ⟨rfl, rfl⟩
  | taken es =>
    obtain ⟨session, reporter, hkept, -⟩ := s.emptied.evalExprs_kept es
    rw [hkept]
    exact Or.inl ⟨rfl, rfl⟩

theorem Consistent.of_takes (hs : s.Consistent) (h : s.Takes line answer) :
    answer.2.Consistent := by
  obtain ⟨hsettings, -, -⟩ := h.kept
  obtain ⟨hpending, hprompt⟩ | ⟨rfl, hparsed⟩ := h.cases hs
  · refine ⟨?_, Or.inl hpending⟩
    simp [hprompt, hsettings, due, hpending]
  · refine ⟨?_, Or.inr hparsed⟩
    simp [holding, due, source]

theorem Consistent.pending_ne_nil_iff (h : s.Consistent) :
    s.pending ≠ [] ↔
      ∃ e, parse s.session.limit s.pending = .error e ∧ e.kind? = some .incomplete := by
  constructor
  · intro hpending
    obtain hempty | ⟨e, hparsed, hincomplete⟩ := h.incomplete
    · exact absurd hempty hpending
    · exact ⟨e, hparsed, by simpa [Error.isIncomplete] using hincomplete⟩
  · rintro ⟨e, hparsed, -⟩ hpending
    rw [hpending] at hparsed
    cases hparsed

/-! ## All lines -/

theorem feedEach_snoc (s : Shell) (lines : List (List Char)) (line : List Char) :
    (s.feedEach (lines ++ [line])).2 = ((s.feedEach lines).2.feed line).2 := by
  induction lines generalizing s with
  | nil => rfl
  | cons first rest ih => exact ih (s.feed first).2

theorem text_snoc (lines : List (List Char)) (line : List Char) :
    text (lines ++ [line]) = text lines ++ line ++ ['\n'] := by
  simp [text]

theorem feed_takes_of_going (h : (s.feed line).2.ended = false) : s.Takes line (s.feed line) := by
  apply feed_takes
  intro hend
  unfold feed finish at h
  rw [if_pos hend] at h
  cases h

theorem going_of_snoc {lines : List (List Char)}
    (h : (s.feedEach (lines ++ [line])).2.ended = false) :
    (s.feedEach lines).2.ended = false ∧
      (s.feedEach lines).2.Takes line ((s.feedEach lines).2.feed line) := by
  rw [feedEach_snoc] at h
  have htakes := feed_takes_of_going h
  obtain ⟨-, -, hended⟩ := htakes.kept
  exact ⟨hended ▸ h, htakes⟩

theorem feedEach_kept {lines : List (List Char)} (hs : s.Consistent)
    (h : (s.feedEach lines).2.ended = false) :
    (s.feedEach lines).2.Consistent ∧ (s.feedEach lines).2.settings = s.settings ∧
      (s.feedEach lines).2.session.limit = s.session.limit := by
  induction lines using List.reverseRecOn with
  | nil => exact ⟨hs, rfl, rfl⟩
  | append_singleton lines line ih =>
    obtain ⟨hgoing, htakes⟩ := going_of_snoc h
    obtain ⟨hconsistent, hsettings, hlimit⟩ := ih hgoing
    obtain ⟨hsettings', hlimit', -⟩ := htakes.kept
    rw [feedEach_snoc]
    exact ⟨hconsistent.of_takes htakes, hsettings'.trans hsettings, hlimit'.trans hlimit⟩

/-- What is pending is the lines since nothing was. -/
theorem exists_since {lines : List (List Char)} (hs : s.Consistent) (hpending : s.pending = [])
    (h : (s.feedEach lines).2.ended = false) :
    ∃ before since, lines = before ++ since ∧ (s.feedEach before).2.pending = [] ∧
      (∀ first, first <+: since → first ≠ [] → (s.feedEach (before ++ first)).2.pending ≠ []) ∧
      (s.feedEach lines).2.pending = text since := by
  induction lines using List.reverseRecOn with
  | nil =>
    refine ⟨[], [], rfl, hpending, ?_, hpending⟩
    intro first hfirst hne
    exact absurd (List.prefix_nil.1 hfirst) hne
  | append_singleton lines line ih =>
    obtain ⟨hgoing, htakes⟩ := going_of_snoc h
    obtain ⟨before, since, rfl, hbefore, hheld, hsince⟩ := ih hgoing
    have hlast := feedEach_snoc s (before ++ since) line
    obtain ⟨hempty, -⟩ | ⟨hholding, -⟩ := htakes.cases (feedEach_kept hs hgoing).1
    · rw [← hlast] at hempty
      refine ⟨before ++ since ++ [line], [], by simp, hempty, ?_, hempty⟩
      intro first hfirst hne
      exact absurd (List.prefix_nil.1 hfirst) hne
    · have hpending' : (s.feedEach (before ++ since ++ [line])).2.pending =
          text (since ++ [line]) := by
        rw [hlast, hholding, text_snoc, ← hsince]
        rfl
      refine ⟨before, since ++ [line], by simp, hbefore, ?_, hpending'⟩
      intro first hfirst hne
      obtain rfl | hfirst := List.prefix_concat_iff.1 hfirst
      · rw [← List.append_assoc, hpending', text_snoc]
        simp
      · exact hheld first hfirst hne

theorem Consistent.prompt_eq_iff (h : s.Consistent)
    (hprompts : s.settings.prompt ≠ s.settings.continuationPrompt) :
    s.prompt = s.settings.continuationPrompt ↔ s.pending ≠ [] := by
  rw [h.prompted, due]
  split <;> simp_all

theorem Consistent.feed_of_held (h : s.Consistent) (hgoing : (s.feed line).2.ended = false)
    (hpending : (s.feed line).2.pending ≠ []) :
    s.evaluated line = [] ∧ s.feed line = ({}, s.holding line) := by
  obtain ⟨hempty, -⟩ | ⟨hholding, e, hparsed, -⟩ := (feed_takes_of_going hgoing).cases h
  · exact absurd hempty hpending
  · exact ⟨by simp [evaluated, hparsed], hholding⟩

theorem feed_of_refused {e : Error} (hsource : s.IsSource line)
    (hparsed : parse s.session.limit (s.source line) = .error e)
    (hkind : e.kind? ≠ some .incomplete) :
    (e.kind? = some .malformed ∨ e = .depthExceeded) ∧
      ∃ message, e.condition.announcement? = some message ∧
        s.feed line =
          ({ err := s.reporter.line message ++
              s.settings.log "reporting" ("reported " ++ e.condition.title) },
            { s with pending := [], prompt := s.settings.prompt,
                     reporter := { s.reporter with failed := true } }) := by
  have hincomplete : e.isIncomplete = false := by simpa [Error.isIncomplete] using hkind
  have hends : EndsLine (s.source line) := ⟨s.pending ++ line, rfl⟩
  have hfault : e.IsFault := by
    have hread := parse_faultOr s.session.limit (s.source line)
    rwa [hparsed] at hread
  obtain ⟨message, hmessage⟩ := hfault.announcement
  obtain h | hdefinite := parse_error_cases hends hparsed
  · rw [hincomplete] at h
    cases h
  · refine ⟨hdefinite.malformed_or hfault, message, hmessage, ?_⟩
    rw [feed_of_fault hsource hparsed hincomplete, fail_of_announcement hmessage]
    rfl

/-- **What the shell holds back** is the lines that have broken off. -/
theorem feedEach_holds_back (limit : Nat) (shared : Nat → Sharing) (settings : Settings)
    (lines : List (List Char))
    (hgoing : ((start limit shared settings).feedEach lines).2.ended = false) :
    let first := start limit shared settings
    let s := (first.feedEach lines).2
    (settings.prompt ≠ settings.continuationPrompt →
      (s.prompt = settings.continuationPrompt ↔ s.pending ≠ [])) ∧
    (s.pending ≠ [] ↔ ∃ e, parse limit s.pending = .error e ∧ e.kind? = some .incomplete) ∧
    (∃ before since, lines = before ++ since ∧ (first.feedEach before).2.pending = [] ∧
      (∀ part, part <+: since → part ≠ [] → (first.feedEach (before ++ part)).2.pending ≠ []) ∧
      s.pending = text since) ∧
    (∀ line, (s.feed line).2.ended = false → (s.feed line).2.pending ≠ [] →
      s.evaluated line = [] ∧
      s.feed line =
        ({}, { s with pending := s.source line, prompt := settings.continuationPrompt })) ∧
    ∀ line e, s.IsSource line → parse limit (s.source line) = .error e →
      e.kind? ≠ some .incomplete →
      (e.kind? = some .malformed ∨ e = .depthExceeded) ∧
      ∃ message, e.condition.announcement? = some message ∧
        s.feed line =
          ({ err := s.reporter.line message ++
              settings.log "reporting" ("reported " ++ e.condition.title) },
            { s with pending := [], prompt := settings.prompt,
                     reporter := { s.reporter with failed := true } }) := by
  have hstart : (start limit shared settings).Consistent := ⟨rfl, Or.inl rfl⟩
  obtain ⟨hconsistent, hsettings, hlimit⟩ := feedEach_kept hstart hgoing
  have hsince := exists_since hstart rfl hgoing
  intro first s
  change s.settings = settings at hsettings
  change s.session.limit = limit at hlimit
  rw [← hsettings, ← hlimit]
  refine ⟨hconsistent.prompt_eq_iff, hconsistent.pending_ne_nil_iff, hsince, ?_, ?_⟩
  · intro line hgoing' hpending
    exact hconsistent.feed_of_held hgoing' hpending
  · intro line e hsource hparsed hkind
    exact feed_of_refused hsource hparsed hkind

/-- A definition, and behind it a list over three lines that a comment does not close. -/
def openLines : List (List Char) :=
  ["(define a 1)".toList, "(display '(1".toList, "; )".toList, "help".toList]

theorem feedEach_holds_back_openLines :
    let s := ((fresh 100 { color := false }).feedEach openLines).2
    s.ended = false ∧ s.prompt = "... " ∧ s.pending = text (openLines.drop 1) ∧
      (s.feed "\"".toList).1.err = "" ∧
      (s.feed "))) (define a 2)".toList).1.err =
        "error: SchemeSyntaxError: Unexpected ')'\n" ∧
      (s.feed "))) (define a 2)".toList).2.session = s.session := by
  unfold fresh
  intro s
  have hgoing : s.ended = false := by decide +kernel
  have hpending : s.pending = text (openLines.drop 1) := by decide +kernel
  have hopen : s.pending ≠ [] := by
    rw [hpending]
    decide
  have hsource : s.IsSource "))) (define a 2)".toList :=
    ⟨by decide +kernel, fun h => absurd h hopen⟩
  have hparsed : parse 100 (s.source "))) (define a 2)".toList) = .error .unexpectedClose := by
    unfold source
    rw [hpending]
    rfl
  obtain ⟨hprompt, -, -, hheld, hrefused⟩ :=
    feedEach_holds_back 100 (fun _ _ => false) { color := false } openLines hgoing
  obtain ⟨-, message, hmessage, hfeed⟩ := hrefused _ _ hsource hparsed (by decide)
  refine ⟨hgoing, (hprompt (by decide)).2 hopen, hpending, ?_, ?_, ?_⟩
  · rw [(hheld "\"".toList (by decide +kernel) (by decide +kernel)).2]
  · rw [hfeed]
    obtain rfl := Option.some.inj hmessage
    decide +kernel
  · rw [hfeed]

end Shell

end Scheme
