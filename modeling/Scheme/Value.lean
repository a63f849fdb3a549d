import Scheme.Primitive
import Scheme.Symbol

/-!
# Values

Programs are data. A closure is known by its number in the store.
-/

namespace Scheme

abbrev ClosureId := Nat

inductive Value where
  /-- No value at all. No text reads as it, and no program computes it. -/
  | absent
  /-- what a form gives that is there for its effect -/
  | unspecified
  | bool (b : Bool)
  | num (n : Number)
  | str (s : String)
  | sym (x : Symbol)
  | list (items : List Value)
  | primitive (p : Primitive)
  | closure (c : ClosureId)
deriving Inhabited

namespace Value

/-- Everything but `#f` counts as true. -/
def isTrue : Value → Bool
  | .bool false => false
  | _ => true

def isUnspecified : Value → Bool
  | .unspecified => true
  | _ => false

def number? : Value → Option Number
  | .num n => some n
  | _ => none

def symbol? : Value → Option Symbol
  | .sym x => some x
  | _ => none

def list? : Value → Option (List Value)
  | .list items => some items
  | _ => none

/-! ## Equality

Values are equal if they are of one kind and equal in it, lists element by element. Procedures
are equal only to themselves. -/

mutual

/-- Equality, with `eq` to compare numbers. -/
def equalBy (eq : Number → Number → Bool) : Value → Value → Bool
  | .absent, .absent => true
  | .unspecified, .unspecified => true
  | .bool a, .bool b => a == b
  | .num a, .num b => eq a b
  | .str a, .str b => a == b
  | .sym a, .sym b => a == b
  | .list as, .list bs => allEqualBy eq as bs
  | .primitive p, .primitive q => p == q
  | .closure c, .closure d => c == d
  | _, _ => false

def allEqualBy (eq : Number → Number → Bool) : List Value → List Value → Bool
  | [], [] => true
  | a :: as, b :: bs => a.equalBy eq b && allEqualBy eq as bs
  | _, _ => false

end

/-- The values are the same datum. -/
def same (a b : Value) : Bool := a.equalBy Number.same b

mutual

theorem equalBy_beq_iff {a b : Value} : a.equalBy (· == ·) b = true ↔ a = b := by
  cases a <;> cases b <;> simp [equalBy, allEqualBy_beq_iff]

theorem allEqualBy_beq_iff {as bs : List Value} : allEqualBy (· == ·) as bs = true ↔ as = bs := by
  cases as <;> cases bs <;> simp [allEqualBy, equalBy_beq_iff, allEqualBy_beq_iff]

end

instance : DecidableEq Value := fun _ _ => decidable_of_iff _ equalBy_beq_iff

/-! ## The written form

A value is written so that data read back as themselves. Procedures are written by their names,
which the store knows. -/

/-- How a character stands in a written string. -/
def escaped : Char → List Char
  | '\\' => ['\\', '\\']
  | '\x22' => ['\\', '\x22']
  | '\n' => ['\\', 'n']
  | '\t' => ['\\', 't']
  | c => [c]

def writeString (s : String) : String :=
  String.ofList ('\x22' :: (s.toList.flatMap escaped ++ ['\x22']))

mutual

/-- Writes a value, with `describe` to write closures. -/
def write (describe : ClosureId → String) : Value → String
  | .absent => "None"
  | .unspecified => "#<unspecified>"
  | .bool true => "#t"
  | .bool false => "#f"
  | .num n => n.write
  | .str s => writeString s
  | .sym x => x.name
  | .list items => "(" ++ " ".intercalate (writeAll describe items) ++ ")"
  | .primitive p => "#<builtin " ++ p.name ++ ">"
  | .closure c => describe c

def writeAll (describe : ClosureId → String) : List Value → List String
  | [] => []
  | v :: vs => v.write describe :: writeAll describe vs

end

/-- What display prints: a string as it is, and any other value in its written form. -/
def display (describe : ClosureId → String) : Value → String
  | .str s => s
  | v => v.write describe

end Value

end Scheme
