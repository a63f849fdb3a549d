import Mathlib.Data.List.Chain
import Scheme.Proofs.Floats
import Scheme.Proofs.Quotients

/-!
# Comparing many numbers

Only neighbours are compared, but on exact values the relations are transitive.
-/

namespace Scheme

namespace Relation

/-- The relation on values that are in order. -/
def Holds {α : Type} [LinearOrder α] : Relation → α → α → Prop
  | .lt, a, b => a < b
  | .le, a, b => a ≤ b
  | .gt, a, b => a > b
  | .ge, a, b => a ≥ b
  | .eq, a, b => a = b

/-- The relation seen from the other side. -/
def converse : Relation → Relation
  | .lt => .gt
  | .le => .ge
  | .gt => .lt
  | .ge => .le
  | .eq => .eq

section Order

variable {α : Type} [LinearOrder α] {a b c : α}

theorem Holds.trans {r : Relation} (hab : r.Holds a b) (hbc : r.Holds b c) : r.Holds a c := by
  cases r with
  | lt => exact lt_trans hab hbc
  | le => exact le_trans hab hbc
  | gt => exact lt_trans hbc hab
  | ge => exact le_trans hbc hab
  | eq => exact Eq.trans hab hbc

theorem holds_converse_iff {r : Relation} : r.converse.Holds a b ↔ r.Holds b a := by
  cases r with
  | eq => exact eq_comm
  | _ => exact Iff.rfl

theorem holds_eq_iff : Relation.eq.Holds a b ↔ Relation.le.Holds a b ∧ Relation.ge.Holds a b :=
  le_antisymm_iff

theorem isChain_iff_pairwise {r : Relation} {as : List α} :
    as.IsChain r.Holds ↔ as.Pairwise r.Holds := by
  have htrans : Trans r.Holds r.Holds (r.Holds : α → α → Prop) := ⟨Holds.trans⟩
  exact List.isChain_iff_pairwise

end Order

theorem test_iff (r : Relation) (p q : Place) : r.test p q = true ↔ r.Holds p.value q.value := by
  have hle (p q : Place) : p.le q = true ↔ p.value ≤ q.value := by
    rw [Place.le, Bool.not_eq_true', ← Bool.not_eq_true, Place.lt_iff, not_lt]
  cases r with
  | lt => exact p.lt_iff q
  | le => exact hle p q
  | gt => exact q.lt_iff p
  | ge => exact hle q p
  | eq =>
    rw [test, Bool.and_eq_true, hle, hle]
    exact le_antisymm_iff.symm

theorem holds_iff (r : Relation) {m n : Number} (hm : m.isNaN = false) (hn : n.isNaN = false) :
    r.holds m n = true ↔ r.Holds m.exact n.exact := by
  obtain ⟨p, hp, hpvalue⟩ := Number.exists_place hm
  obtain ⟨q, hq, hqvalue⟩ := Number.exists_place hn
  rw [← hpvalue, ← hqvalue, ← test_iff]
  simp only [holds, hp, hq]

theorem chain_iff (r : Relation) {ns : List Number} (h : ∀ n ∈ ns, n.isNaN = false) :
    r.chain ns = true ↔ (ns.map Number.exact).IsChain r.Holds := by
  induction ns with
  | nil => simp [chain]
  | cons m ns ih =>
    obtain ⟨hm, hns⟩ := List.forall_mem_cons.1 h
    rcases ns with _ | ⟨n, ns⟩
    · simp [chain]
    · have hn := hns n List.mem_cons_self
      rw [chain, Bool.and_eq_true, holds_iff r hm hn, ih hns]
      simp only [List.map_cons, List.isChain_cons_cons]

/-- What holds between neighbours holds between all. -/
theorem chain_iff_pairwise (r : Relation) {ns : List Number} (h : ∀ n ∈ ns, n.isNaN = false) :
    r.chain ns = true ↔ (ns.map Number.exact).Pairwise r.Holds :=
  (r.chain_iff h).trans isChain_iff_pairwise

theorem chain_reverse (r : Relation) {ns : List Number} (h : ∀ n ∈ ns, n.isNaN = false) :
    r.chain ns.reverse = r.converse.chain ns := by
  have hreverse : ∀ n ∈ ns.reverse, n.isNaN = false := fun n hn => h n (List.mem_reverse.1 hn)
  rw [Bool.eq_iff_iff, r.chain_iff_pairwise hreverse, r.converse.chain_iff_pairwise h,
    List.map_reverse, List.pairwise_reverse]
  exact List.Pairwise.iff fun _ _ => holds_converse_iff.symm

theorem chain_eq_iff {ns : List Number} (h : ∀ n ∈ ns, n.isNaN = false) :
    Relation.eq.chain ns = true ↔ Relation.le.chain ns = true ∧ Relation.ge.chain ns = true := by
  rw [chain_iff_pairwise _ h, chain_iff_pairwise _ h, chain_iff_pairwise _ h,
    ← List.pairwise_and_iff]
  exact List.Pairwise.iff fun _ _ => holds_eq_iff

end Relation

theorem Primitive.callNumeric_compare (describe : ClosureId → String) (room : Nat) (r : Relation)
    {ns : List Number} (h : 2 ≤ ns.length) :
    callNumeric describe room (.compare r) (ns.map .num) = .ok (.bool (r.chain ns)) :=
  callNumeric_numbers describe room (decide_eq_true h)

namespace Eval

/-- **Comparisons hold for all pairs.** -/
theorem run_compare (ns : List Number) (hcount : 2 ≤ ns.length)
    (hnumbers : ∀ n ∈ ns, n.isNaN = false) (depth : Nat) (s : Store) :
    let call (r : Relation) (ns : List Number) :=
      run (depth + 1) (.call (.primitive (.compare r)) (ns.map .num)) s
    (∀ r, ∃ b, call r ns = .ok (.bool b) s ∧
      (b = true ↔ ∀ i j (hi : i < ns.length) (hj : j < ns.length), i < j →
        r.Holds ns[i].exact ns[j].exact)) ∧
    (∀ r, call r ns.reverse = call r.converse ns) ∧
    (call .eq ns = .ok (.bool true) s ↔
      call .le ns = .ok (.bool true) s ∧ call .ge ns = .ok (.bool true) s) := by
  intro call
  have hcall (r : Relation) (ns : List Number) (h : 2 ≤ ns.length) :
      call r ns = .ok (.bool (r.chain ns)) s := by
    have hrun := run_numeric (p := .compare r) rfl depth (ns.map .num) s
    rw [Primitive.callNumeric_compare s.describe depth r h] at hrun
    exact hrun
  refine ⟨?_, ?_, ?_⟩
  · intro r
    refine ⟨_, hcall r ns hcount, ?_⟩
    rw [r.chain_iff_pairwise hnumbers, List.pairwise_map, List.pairwise_iff_getElem]
  · intro r
    rw [hcall _ _ (by simpa using hcount), hcall _ _ hcount, r.chain_reverse hnumbers]
  · have htrue (r : Relation) : call r ns = .ok (.bool true) s ↔ r.chain ns = true := by
      rw [hcall r ns hcount]
      simp
    rw [htrue, htrue, htrue]
    exact Relation.chain_eq_iff hnumbers

/-- Both infinities, an integer that no float is as large as, and one that no float is equal to. -/
def fallingNumbers : List Number :=
  [.float (1.0 / 0.0), .int (10 ^ 400), .int 9007199254740993, .float 9007199254740992.0,
    .float (-1.0 / 0.0)]

theorem run_compare_fallingNumbers :
    2 ≤ fallingNumbers.length ∧ (∀ n ∈ fallingNumbers, n.isNaN = false) ∧
      (∀ i j (hi : i < fallingNumbers.length) (hj : j < fallingNumbers.length), i < j →
        fallingNumbers[i].exact > fallingNumbers[j].exact) ∧
      run 1 (.call (.primitive (.compare .lt)) (fallingNumbers.reverse.map .num)) {} =
        .ok (.bool true) {} := by
  have hcount : 2 ≤ fallingNumbers.length := by decide
  have hnumbers : ∀ n ∈ fallingNumbers, n.isNaN = false := by decide +kernel
  have hchain : Relation.gt.chain fallingNumbers = true := by decide +kernel
  have hgt : run 1 (.call (.primitive (.compare .gt)) (fallingNumbers.map .num)) {} =
      .ok (.bool true) {} := by
    rw [run_numeric rfl, Primitive.callNumeric_compare _ _ _ hcount, hchain]
    rfl
  obtain ⟨hpairs, hreverse, -⟩ := run_compare fallingNumbers hcount hnumbers 0 {}
  obtain ⟨b, hb, hiff⟩ := hpairs .gt
  obtain rfl : b = true := by simpa using hb.symm.trans hgt
  exact ⟨hcount, hnumbers, hiff.1 rfl, (hreverse .lt).trans hgt⟩

end Eval

end Scheme
