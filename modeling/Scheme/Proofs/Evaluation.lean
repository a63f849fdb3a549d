import Scheme.Proofs.Discipline
import Scheme.Proofs.Trace
import Scheme.Session

/-!
# Evaluation under a discipline

A step keeps a discipline form by form, and a session from text to text.
-/

namespace Scheme

namespace Discipline

open Eval

variable (D : Discipline)

/-- Code may be evaluated in an open frame, and what may be held may be called with such things. -/
def Admits (s : Store) : Job → Prop
  | .expr e env => e.Code D.Allowed ∧ D.Open s env
  | .call procedure args => D.Holds s procedure ∧ ∀ v ∈ args, D.Holds s v

def Obeys (run : Job → Eval Value) : Prop :=
  ∀ s job, D.Good s → D.Admits s job → D.Keeps s (run job) D.Holds

variable {D} (hD : D.Lawful) {room : Nat} {run : Job → Eval Value} (h : D.Obeys run) {s : Store}
include hD h

/-! ## Sequences -/

theorem keeps_evalEach (hs : D.Good s) {env : FrameId} (henv : D.Open s env) {es : List Value}
    (hes : ∀ e ∈ es, e.Code D.Allowed) :
    D.Keeps s (evalEach run env es) fun t vs => ∀ v ∈ vs, D.Holds t v := by
  induction es generalizing s with
  | nil => exact keeps_pure hD hs (by simp)
  | cons e rest ih =>
    obtain ⟨he, hrest⟩ := List.forall_mem_cons.1 hes
    unfold evalEach
    refine keeps_bind hD (h s (.expr e env) hs ⟨he, henv⟩) fun t v ht hst hv => ?_
    refine keeps_bind hD (ih ht (hD.open_next hst henv) hrest) fun u vs hu htu hvs => ?_
    exact keeps_pure hD hu (List.forall_mem_cons.2 ⟨hD.holds_next htu hv, hvs⟩)

theorem keeps_evalSequence (hs : D.Good s) {env : FrameId} (henv : D.Open s env) {last : Value}
    (hlast : D.Holds s last) {es : List Value} (hes : ∀ e ∈ es, e.Code D.Allowed) :
    D.Keeps s (evalSequence run env last es) D.Holds := by
  induction es generalizing s last with
  | nil => exact keeps_pure hD hs hlast
  | cons e rest ih =>
    obtain ⟨he, hrest⟩ := List.forall_mem_cons.1 hes
    unfold evalSequence
    refine keeps_bind hD (h s (.expr e env) hs ⟨he, henv⟩) fun t v ht hst hv => ?_
    exact ih ht (hD.open_next hst henv) hv hrest

theorem keeps_callEach (hs : D.Good s) {procedure : Value} (hp : D.Holds s procedure)
    {vs : List Value} (hvs : ∀ v ∈ vs, D.Holds s v) :
    D.Keeps s (callEach run procedure vs) fun t ws => ∀ w ∈ ws, D.Holds t w := by
  induction vs generalizing s with
  | nil => exact keeps_pure hD hs (by simp)
  | cons v rest ih =>
    obtain ⟨hv, hrest⟩ := List.forall_mem_cons.1 hvs
    have hjob : D.Admits s (.call procedure [v]) := ⟨hp, by simpa using hv⟩
    unfold callEach
    refine keeps_bind hD (h s _ hs hjob) fun t w ht hst hw => ?_
    have hrest' : ∀ v ∈ rest, D.Holds t v := fun v hv => hD.holds_next hst (hrest v hv)
    refine keeps_bind hD (ih ht (hD.holds_next hst hp) hrest') fun u ws hu htu hws => ?_
    exact keeps_pure hD hu (List.forall_mem_cons.2 ⟨hD.holds_next htu hw, hws⟩)

/-! ## Calls -/

omit h in
theorem keeps_items (hs : D.Good s) (p : Primitive) {v : Value} (hv : D.Holds s v) :
    D.Keeps s (Eval.ofExcept (Primitive.items s.describe p v)) fun t items =>
      ∀ w ∈ items, D.Holds t w := by
  refine keeps_ofExcept hD hs ((Primitive.items_faultOr s.describe p v).imp fun items hlist => ?_)
  subst hlist
  exact hv.items

theorem keeps_callPrimitive (hs : D.Good s) (p : Primitive) {args : List Value}
    (hargs : ∀ v ∈ args, D.Holds s v) : D.Keeps s (callPrimitive room run p args) D.Holds := by
  unfold callPrimitive
  refine keeps_get_bind ?_ ?_
  · simp only [Store.display, hD.view_describe]
  · split
    · rename_i procedure v
      have hp : D.Holds s procedure := hargs _ (by simp)
      have hitems := keeps_items hD hs .map (hargs v (by simp))
      refine keeps_bind hD hitems fun t items ht hst hvs => ?_
      have hresults := keeps_callEach hD h ht (hD.holds_next hst hp) hvs
      refine keeps_bind hD hresults fun u ws hu _ hws => ?_
      exact keeps_pure hD hu (hD.holds_list hws)
    · rename_i procedure v
      have hp : D.Holds s procedure := hargs _ (by simp)
      have hitems := keeps_items hD hs .apply (hargs v (by simp))
      refine keeps_bind hD hitems fun t items ht hst hvs => ?_
      exact h t (.call procedure items) ht ⟨hD.holds_next hst hp, hvs⟩
    · rename_i a b
      refine keeps_bind hD (keeps_nextShared hD hs) fun t one ht _ _ => ?_
      have hequal := keeps_ofExcept hD ht (Q := fun _ _ => True) (a.isEqual_faultOr one room [] b)
      refine keeps_bind hD hequal fun u r hu _ _ => ?_
      exact keeps_pure hD hu (hD.holds_code (.bool r))
    · rename_i v
      have hvisit := keeps_ofExcept hD hs (Q := fun _ _ => True) (v.visit_faultOr room)
      refine keeps_bind hD hvisit fun t _ ht _ _ => ?_
      refine keeps_bind hD (keeps_emit hD ht _) fun u _ hu _ _ => ?_
      exact keeps_pure hD hu hD.holds_unspecified
    · refine keeps_bind hD (keeps_emit hD hs _) fun t _ ht _ _ => ?_
      exact keeps_pure hD ht hD.holds_unspecified
    · split
      · have hanswer := Primitive.callNumeric_faultOr s.describe room p args
        refine keeps_ofExcept hD hs (hanswer.imp fun v hv => ?_)
        exact hD.holds_from hargs (Primitive.from_scalar hv args)
      · have hanswer := Primitive.onData_faultOr s.describe p args
        exact keeps_ofExcept hD hs (hanswer.imp fun v hv => hD.holds_from hargs hv)

theorem keeps_call (hs : D.Good s) {procedure : Value} {args : List Value}
    (hp : D.Holds s procedure) (hargs : ∀ v ∈ args, D.Holds s v) :
    D.Keeps s (call room run procedure args) D.Holds := by
  cases procedure with
  | primitive p => exact keeps_callPrimitive hD h hs p hargs
  | closure c =>
    unfold call
    refine keeps_get_bind ?_ ?_
    · simp only [hD.view_closures]
    · cases hk : s.closures[c]? with
      | none => exact keeps_notApplicable hD hs room (.closure c)
      | some k =>
        have hframe := keeps_callFrame hD hs (hp _ .here) hk hargs
        refine keeps_bind hD hframe fun t env ht _ henv => ?_
        exact keeps_evalSequence hD h ht henv hD.holds_unspecified (hs.1 c k hk).1
  | _ => exact keeps_notApplicable hD hs room _

/-! ## Forms -/

variable (hs : D.Good s) {env : FrameId} (henv : D.Open s env) {tail : List Value}
  (htail : ∀ e ∈ tail, e.Code D.Allowed)
include hs henv htail

theorem keeps_conditionalForm : D.Keeps s (conditionalForm run env tail) D.Holds := by
  unfold conditionalForm
  split
  · rename_i test consequent
    have htest := htail test (by simp)
    have hconsequent := htail consequent (by simp)
    refine keeps_bind hD (h s (.expr test env) hs ⟨htest, henv⟩) fun t v ht hst _ => ?_
    split
    · exact h t (.expr consequent env) ht ⟨hconsequent, hD.open_next hst henv⟩
    · exact keeps_pure hD ht hD.holds_unspecified
  · rename_i test consequent alternate
    have htest := htail test (by simp)
    have hconsequent := htail consequent (by simp)
    have halternate := htail alternate (by simp)
    refine keeps_bind hD (h s (.expr test env) hs ⟨htest, henv⟩) fun t v ht hst _ => ?_
    split
    · exact h t (.expr consequent env) ht ⟨hconsequent, hD.open_next hst henv⟩
    · exact h t (.expr alternate env) ht ⟨halternate, hD.open_next hst henv⟩
  · exact keeps_throw hD hs trivial

theorem keeps_defineForm : D.Keeps s (defineForm room run env tail) D.Holds := by
  unfold defineForm
  split
  · exact keeps_throw hD hs trivial
  · rename_i name params body
    obtain ⟨htarget, hbody⟩ := List.forall_mem_cons.1 htail
    obtain ⟨hname, hparams⟩ := List.forall_mem_cons.1 htarget.items
    have hclosure := keeps_makeClosure hD hs room (some name) henv (.list hparams) hbody
    refine keeps_bind hD hclosure fun t c ht hst hc => ?_
    have hdefine := keeps_define hD ht hname.symbol (hD.open_next hst henv) hc
    exact keeps_bind hD hdefine fun u _ hu _ _ => keeps_pure hD hu hD.holds_unspecified
  · exact keeps_throw hD hs trivial
  · rename_i name e
    have hname := (htail (.sym name) (by simp)).symbol
    have he := htail e (by simp)
    refine keeps_bind hD (h s (.expr e env) hs ⟨he, henv⟩) fun t v ht hst hv => ?_
    refine keeps_bind hD (keeps_nameValue hD ht hv name) fun u _ hu htu _ => ?_
    have henv' := hD.open_next (hD.next_trans hst htu) henv
    have hdefine := keeps_define hD hu hname henv' (hD.holds_next htu hv)
    exact keeps_bind hD hdefine fun w _ hw _ _ => keeps_pure hD hw hD.holds_unspecified
  · exact keeps_throw hD hs trivial
  · exact keeps_failShowing hD hs (fun _ => id) room (htail _ (by simp))

theorem keeps_assignForm : D.Keeps s (assignForm room run env tail) D.Holds := by
  unfold assignForm
  split
  · rename_i name e
    have hname := (htail (.sym name) (by simp)).symbol
    have he := htail e (by simp)
    refine keeps_bind hD (h s (.expr e env) hs ⟨he, henv⟩) fun t v ht hst hv => ?_
    have hassign := keeps_assign hD ht hname (hD.open_next hst henv) hv
    exact keeps_bind hD hassign fun u _ hu _ _ => keeps_pure hD hu hD.holds_unspecified
  · exact keeps_failShowing hD hs (fun _ => id) room (htail _ (by simp))
  · exact keeps_throw hD hs trivial

omit h in
theorem keeps_lambdaForm : D.Keeps s (lambdaForm room env tail) D.Holds := by
  unfold lambdaForm
  split
  · exact keeps_throw hD hs trivial
  · rename_i params body
    obtain ⟨hparams, hbody⟩ := List.forall_mem_cons.1 htail
    exact keeps_makeClosure hD hs room none henv hparams hbody

omit hD h hs henv htail in
theorem code_of_bindings {bs names inits : List Value} (hbs : ∀ e ∈ bs, e.Code D.Allowed)
    (hb : bindings bs = .ok (names, inits)) :
    (∀ e ∈ names, e.Code D.Allowed) ∧ ∀ e ∈ inits, e.Code D.Allowed := by
  induction bs generalizing names inits with
  | nil =>
    cases hb
    exact ⟨by simp, by simp⟩
  | cons b rest ih =>
    obtain ⟨hb', hrest⟩ := List.forall_mem_cons.1 hbs
    unfold bindings at hb
    split at hb
    · contradiction
    · rename_i name e rest' heq
      obtain ⟨rfl, rfl⟩ := List.cons.inj heq
      cases hmore : bindings rest with
      | error binding =>
        rw [hmore] at hb
        cases hb
      | ok more =>
        rw [hmore] at hb
        cases hb
        obtain ⟨hnames, hinits⟩ := ih hrest hmore
        have hname := hb'.items (.sym name) (by simp)
        have he := hb'.items e (by simp)
        exact ⟨List.forall_mem_cons.2 ⟨hname, hnames⟩, List.forall_mem_cons.2 ⟨he, hinits⟩⟩
    · cases hb

omit hD h hs henv htail in
theorem mem_of_bindings_error {bs : List Value} {b : Value} (h : bindings bs = .error b) :
    b ∈ bs := by
  induction bs with
  | nil => cases h
  | cons c rest ih =>
    unfold bindings at h
    split at h
    · contradiction
    · rename_i name e rest' heq
      obtain ⟨rfl, rfl⟩ := List.cons.inj heq
      cases hmore : bindings rest with
      | error b' =>
        rw [hmore] at h
        cases h
        exact List.mem_cons_of_mem _ (ih hmore)
      | ok more =>
        rw [hmore] at h
        cases h
    · rename_i heq
      obtain ⟨rfl, rfl⟩ := List.cons.inj heq
      cases h
      exact List.mem_cons_self

theorem keeps_bindForm : D.Keeps s (bindForm room run env tail) D.Holds := by
  unfold bindForm
  split
  · rename_i bs body
    obtain ⟨hbs, hbody⟩ := List.forall_mem_cons.1 htail
    split
    · rename_i b hb
      exact keeps_failShowing hD hs (fun _ => id) room (hbs.items b (mem_of_bindings_error hb))
    · rename_i names inits hb
      obtain ⟨hnames, hinits⟩ := code_of_bindings hbs.items hb
      have hclosure := keeps_makeClosure hD hs room none henv (.list hnames) hbody
      refine keeps_bind hD hclosure fun t c ht hst hc => ?_
      -- The closure is there before its arguments are, and is still held when they are.
      have heach := keeps_evalEach hD h ht (hD.open_next hst henv) hinits
      refine keeps_bind hD heach fun u args hu htu hargs => ?_
      exact keeps_call hD h hu (hD.holds_next htu hc) hargs
  · exact keeps_throw hD hs trivial

theorem keeps_chooseForm : D.Keeps s (chooseForm room run env tail) D.Holds := by
  induction tail generalizing s with
  | nil => exact keeps_pure hD hs hD.holds_unspecified
  | cons clause rest ih =>
    obtain ⟨hclause, hrest⟩ := List.forall_mem_cons.1 htail
    unfold chooseForm
    split
    · contradiction
    · rename_i test body rest' heq
      obtain ⟨rfl, rfl⟩ := List.cons.inj heq
      obtain ⟨htest, hbody⟩ := List.forall_mem_cons.1 hclause.items
      split
      · split
        · exact keeps_evalSequence hD h hs henv hD.holds_unspecified hbody
        · exact keeps_throw hD hs trivial
      · refine keeps_bind hD (h s (.expr test env) hs ⟨htest, henv⟩) fun t v ht hst hv => ?_
        split
        · exact keeps_evalSequence hD h ht (hD.open_next hst henv) hv hbody
        · exact ih ht (hD.open_next hst henv) hrest
    · rename_i heq
      obtain ⟨rfl, rfl⟩ := List.cons.inj heq
      exact keeps_failShowing hD hs (fun _ => id) room hclause

theorem keeps_andForm {last : Value} (hlast : D.Holds s last) :
    D.Keeps s (andForm run env last tail) D.Holds := by
  induction tail generalizing s last with
  | nil => exact keeps_pure hD hs hlast
  | cons e rest ih =>
    obtain ⟨he, hrest⟩ := List.forall_mem_cons.1 htail
    unfold andForm
    refine keeps_bind hD (h s (.expr e env) hs ⟨he, henv⟩) fun t v ht hst hv => ?_
    split
    · exact ih ht (hD.open_next hst henv) hrest hv
    · exact keeps_pure hD ht (hD.holds_code (.bool false))

theorem keeps_orForm : D.Keeps s (orForm run env tail) D.Holds := by
  induction tail generalizing s with
  | nil => exact keeps_pure hD hs (hD.holds_code (.bool false))
  | cons e rest ih =>
    obtain ⟨he, hrest⟩ := List.forall_mem_cons.1 htail
    unfold orForm
    refine keeps_bind hD (h s (.expr e env) hs ⟨he, henv⟩) fun t v ht hst hv => ?_
    split
    · exact keeps_pure hD ht hv
    · exact ih ht (hD.open_next hst henv) hrest

theorem keeps_form (keyword : Keyword) : D.Keeps s (form room run keyword tail env) D.Holds := by
  cases keyword with
  | quote =>
    simp only [form, quoteForm]
    split
    · rename_i datum
      exact keeps_pure hD hs (hD.holds_code (htail datum (by simp)))
    · exact keeps_throw hD hs trivial
  | conditional => exact keeps_conditionalForm hD h hs henv htail
  | define => exact keeps_defineForm hD h hs henv htail
  | assign => exact keeps_assignForm hD h hs henv htail
  | lambda => exact keeps_lambdaForm hD hs henv htail
  | begin => exact keeps_evalSequence hD h hs henv hD.holds_unspecified htail
  | bind => exact keeps_bindForm hD h hs henv htail
  | choose => exact keeps_chooseForm hD h hs henv htail
  | and => exact keeps_andForm hD h hs henv htail (hD.holds_code (.bool true))
  | or => exact keeps_orForm hD h hs henv htail

/-! ## Evaluation -/

omit hs henv htail in
/-- A step keeps the discipline if the steps inside it do. -/
theorem obeys_step : D.Obeys (step room run) := by
  intro s job hs hjob
  cases job with
  | call procedure args => exact keeps_call hD h hs hjob.1 hjob.2
  | expr e env =>
    obtain ⟨hcode, henv⟩ := hjob
    cases hcode with
    | bool b => exact keeps_pure hD hs (hD.holds_code (.bool b))
    | num short => exact keeps_pure hD hs (hD.holds_code (.num short))
    | str text => exact keeps_pure hD hs (hD.holds_code (.str text))
    | sym hx => exact keeps_lookup hD hs hx henv
    | @list items hitems =>
      cases items with
      | nil => exact keeps_throw hD hs trivial
      | cons head tail =>
        obtain ⟨hhead, htail⟩ := List.forall_mem_cons.1 hitems
        simp only [step]
        split
        · exact keeps_form hD h hs henv htail _
        · refine keeps_bind hD (h s (.expr head env) hs ⟨hhead, henv⟩) fun t v ht hst hv => ?_
          have heach := keeps_evalEach hD h ht (hD.open_next hst henv) htail
          refine keeps_bind hD heach fun u args hu htu hargs => ?_
          exact keeps_call hD h hu (hD.holds_next htu hv) hargs

omit h hs henv htail in
theorem Lawful.obeys_run (depth : Nat) : D.Obeys (Eval.run depth) := by
  induction depth with
  | zero => exact fun s job hs _ => keeps_throw hD hs trivial
  | succ depth ih => exact obeys_step hD ih

omit h hs henv htail in
theorem Lawful.evaluate (hs : D.Good s) (henv : D.Open s env) {e : Value} (he : e.Code D.Allowed)
    (depth : Nat) :
    D.Good ((Scheme.evaluate depth e env).after s) ∧
      D.Next s ((Scheme.evaluate depth e env).after s) ∧
      ∀ v t, Scheme.evaluate depth e env s = .ok v t → D.Holds t v := by
  have houtcome := (hD.obeys_run depth s (.expr e env) hs ⟨he, henv⟩).2
  unfold Scheme.evaluate Eval.after
  cases hrun : Eval.run depth (.expr e env) s with
  | ok v t =>
    rw [hrun] at houtcome
    refine ⟨houtcome.1, houtcome.2.1, ?_⟩
    rintro v' t' heq
    cases heq
    exact houtcome.2.2
  | error e' t =>
    rw [hrun] at houtcome
    exact ⟨houtcome.1, houtcome.2.1, by simp⟩

end Discipline

/-! ## Sessions -/

namespace Session

def mapStore (f : Store → Store) (s : Session) : Session := { s with store := f s.store }

/-- The sessions that come about: a new one, one that evaluated a text, whatever came of it, and
one whose output was taken. A text that is one expression can be evaluated in any frame. -/
inductive Reached : Session → Prop where
  | start (limit : Nat) (shared : Nat → Sharing) : Reached (start limit shared)
  | eval {s : Session} (h : Reached s) (source : String) : Reached (s.eval source).2
  | evalOne {s : Session} (h : Reached s) (source : String) {env : FrameId}
      (henv : env < s.store.frames.size) : Reached (s.evalOne source env).2
  | takeOutput {s : Session} (h : Reached s) : Reached s.takeOutput.2

theorem reached_fresh (limit : Nat) : (fresh limit).Reached := .start limit _

variable {limit : Nat} {shared : Nat → Sharing} {i : FrameId} {f : Frame}

theorem frame_start (h : (start limit shared).store.frames[i]? = some f) :
    i = globalFrame ∧ f = { bindings := initialBindings } := by
  obtain ⟨hi, rfl⟩ := Array.getElem?_eq_some_iff.1 h
  obtain rfl : i = 0 := by simpa [start] using hi
  exact ⟨rfl, rfl⟩

theorem isInert_of_occurs_start {u v : Value}
    (hf : (start limit shared).store.frames[i]? = some f) (hv : v ∈ f.values) (hu : u.Occurs v) :
    u.isInert = true := by
  obtain ⟨-, rfl⟩ := frame_start hf
  obtain ⟨b, hb, rfl⟩ := List.mem_map.1 hv
  obtain hb | hb := List.mem_append.1 hb
  · obtain ⟨p, -, rfl⟩ := List.mem_map.1 hb
    cases hu
    rfl
  · simp only [constantBindings, List.mem_cons, List.not_mem_nil, or_false] at hb
    obtain rfl | rfl := hb <;>
    · cases hu
      rfl

theorem code_of_parseOne {source : List Char} {e : Value}
    (h : parseOne limit source = .ok e) : e.Code AnyName := by
  unfold parseOne at h
  cases hparse : parse limit source with
  | error e' =>
    rw [hparse] at h
    cases h
  | ok es =>
    rw [hparse] at h
    have hcode := code_of_parse hparse
    match es with
    | [v] =>
      cases h
      exact hcode e (by simp)
    | [] => cases h
    | _ :: _ :: _ => cases h

end Session

namespace Discipline

variable (D : Discipline)

structure Answered (s : Session) (r : Except Error Value × Session) : Prop where
  good : D.Good r.2.store
  next : D.Next s.store r.2.store
  value : FaultOr (D.Holds r.2.store) r.1

variable {D} (hD : D.Lawful) {s : Session} (hs : D.Good s.store)
include hD hs

theorem Lawful.evalExprs {env : FrameId} (henv : D.Open s.store env) {es : List Value}
    (hes : ∀ e ∈ es, e.Code D.Allowed) :
    D.Answered s (s.evalExprs es env) ∧
      (s.mapStore D.view).evalExprs es env =
        ((s.evalExprs es env).1, (s.evalExprs es env).2.mapStore D.view) := by
  obtain ⟨hview, houtcome⟩ :=
    keeps_evalSequence hD (hD.obeys_run s.depth) hs henv hD.holds_unspecified hes
  have hdepth : (s.mapStore D.view).depth = s.depth := rfl
  unfold Session.evalExprs Session.perform
  simp only [EStateM.run, Session.mapStore] at hview ⊢
  rw [Session.mapStore] at hdepth
  rw [hdepth, hview]
  cases hrun : Eval.evalSequence (Eval.run s.depth) env .unspecified es s.store with
  | ok v t =>
    rw [hrun] at houtcome
    exact ⟨⟨houtcome.1, houtcome.2.1, houtcome.2.2⟩, rfl⟩
  | error e t =>
    rw [hrun] at houtcome
    exact ⟨⟨houtcome.1, houtcome.2.1, houtcome.2.2⟩, rfl⟩

theorem Lawful.eval (source : String) (hglobal : D.Open s.store Session.globalFrame)
    (hsource : ∀ es, parse s.limit source.toList = .ok es → ∀ e ∈ es, e.Code D.Allowed) :
    D.Answered s (s.eval source) ∧
      (s.mapStore D.view).eval source = ((s.eval source).1, (s.eval source).2.mapStore D.view) := by
  have hlimit : (s.mapStore D.view).limit = s.limit := rfl
  have hparse := parse_faultOr s.limit source.toList
  unfold Session.eval
  rw [hlimit]
  cases hes : parse s.limit source.toList with
  | error e =>
    rw [hes] at hparse
    exact ⟨⟨hs, hD.next_refl s.store, hparse⟩, rfl⟩
  | ok es => exact hD.evalExprs hs hglobal (hsource es hes)

omit hs in
theorem Lawful.good_reached (hall : ∀ x, D.Allowed x)
    (hstart : ∀ limit shared, D.Inv (Session.start limit shared).store)
    (hopen : ∀ (s : Store) (env : FrameId), D.Inv s → env < s.frames.size → D.Open s env)
    (hglobal : ∀ s : Store, D.Inv s → D.Open s Session.globalFrame)
    (htake : ∀ s : Store, D.Inv s → D.Inv { s with output := "" }) (h : s.Reached) :
    D.Good s.store := by
  have hcode {e : Value} (he : e.Code AnyName) : e.Code D.Allowed := he.restrict fun x _ => hall x
  induction h with
  | start limit shared => exact ⟨fun c k hk => by simp [Session.start] at hk, hstart limit shared⟩
  | @eval s _ source ih =>
    have hsource : ∀ es, parse s.limit source.toList = .ok es → ∀ e ∈ es, e.Code D.Allowed :=
      fun es hes e he => hcode (code_of_parse hes e he)
    exact (hD.eval ih source (hglobal s.store ih.2) hsource).1.good
  | @evalOne s _ source env henv ih =>
    unfold Session.evalOne
    cases hone : parseOne s.limit source.toList with
    | error e => exact ih
    | ok e =>
      have he : e.Code D.Allowed := hcode (Session.code_of_parseOne hone)
      exact (hD.evalExprs ih (hopen s.store env ih.2 henv) (by simpa using he)).1.good
  | @takeOutput s _ ih => exact ⟨ih.1, htake s.store ih.2⟩

end Discipline

end Scheme
