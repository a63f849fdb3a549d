import Scheme.Literal
import Scheme.Value.Occurs

/-!
# Code

Code is literals, symbols and lists of these, with no integer longer than can be read.
-/

namespace Scheme

def Number.IsShort : Number → Prop
  | .int n => n.natAbs < Nat.pow 10 Literal.maxDigits
  | .float _ => True

theorem Number.isShort_of_lt {n : Int} {count : Nat} (h : n.natAbs < Nat.pow 10 count)
    (hcount : count ≤ Literal.maxDigits) : (Number.int n).IsShort := by
  unfold Number.IsShort
  generalize Literal.maxDigits = limit at hcount ⊢
  exact Nat.lt_of_lt_of_le h (Nat.pow_le_pow_right (Nat.succ_pos 9) hcount)

/-- An expression as it can be read, all of whose symbols are allowed. -/
inductive Value.Code (Allowed : Symbol → Prop) : Value → Prop where
  | bool (b : Bool) : Code Allowed (.bool b)
  | num {n : Number} (short : n.IsShort) : Code Allowed (.num n)
  | str (s : String) : Code Allowed (.str s)
  | sym {x : Symbol} (allowed : Allowed x) : Code Allowed (.sym x)
  | list {items : List Value} (items_code : ∀ e ∈ items, Code Allowed e) :
      Code Allowed (.list items)

namespace Value

variable {Allowed Allowed' : Symbol → Prop} {e u : Value}

theorem Code.symbol {x : Symbol} (h : Code Allowed (.sym x)) : Allowed x := by
  cases h
  assumption

theorem Code.items {items : List Value} (h : Code Allowed (.list items)) :
    ∀ e ∈ items, Code Allowed e := by
  cases h
  assumption

theorem Code.of_occurs (h : e.Code Allowed) (hu : u.Occurs e) : u.Code Allowed := by
  induction hu with
  | here => exact h
  | item mem _ ih => exact ih (h.items _ mem)

theorem Code.isInert (h : e.Code Allowed) : e.isInert = true := by
  cases h <;> rfl

theorem Code.restrict (h : e.Code Allowed) (hx : ∀ x, (Value.sym x).Occurs e → Allowed' x) :
    e.Code Allowed' := by
  induction h with
  | bool b => exact .bool b
  | num short => exact .num short
  | str s => exact .str s
  | sym _ => exact .sym (hx _ .here)
  | list _ ih => exact .list fun e he => ih e he fun x hxe => hx x (.item he hxe)

end Value

/-- A word that is read stands for a literal or a symbol, of whatever name. -/
abbrev AnyName : Symbol → Prop := fun _ => True

end Scheme
