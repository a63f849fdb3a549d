/-!
# Symbols

A symbol is a name, which is never empty.
-/

namespace Scheme

structure Symbol where
  name : String
  name_ne : name ≠ ""
deriving DecidableEq

namespace Symbol

/-- The symbol of a name, unless the name is empty. -/
def ofName? (name : String) : Option Symbol :=
  if h : name = "" then none else some ⟨name, h⟩

theorem ofName?_name (x : Symbol) : ofName? x.name = some x := by
  simp [ofName?, x.name_ne]

theorem ofName?_eq_none_iff {name : String} : ofName? name = none ↔ name = "" := by
  simp [ofName?]

/-- The symbol that a quote mark stands for. -/
def quote : Symbol := ⟨"quote", by decide⟩

/-- The symbol that opens the last clause of a choice. -/
def otherwise : Symbol := ⟨"else", by decide⟩

end Symbol

end Scheme
