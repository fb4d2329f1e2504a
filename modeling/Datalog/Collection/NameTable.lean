import Std.Data.TreeMap.Lemmas

/-!
# Interned names

A `NameTable` numbers names densely in the order in which they were first interned. Its two
halves, from names to numbers and back, agree in every table.
-/

namespace Datalog

/-- Names numbered from zero without gaps. -/
structure NameTable where
  names : Array String
  numbers : Std.TreeMap String Nat
  agree : ∀ (name : String) (number : Nat),
    numbers[name]? = some number ↔ names[number]? = some name

namespace NameTable

/-- The table without names. -/
def empty : NameTable where
  names := #[]
  numbers := ∅
  agree name number := by simp

instance : EmptyCollection NameTable := ⟨empty⟩

instance : Inhabited NameTable := ⟨empty⟩

/-- How many names are interned. -/
def size (table : NameTable) : Nat :=
  table.names.size

/-- The number of a name, if it is interned. -/
def number? (table : NameTable) (name : String) : Option Nat :=
  table.numbers[name]?

/-- The name behind a number, if there is one. -/
def name? (table : NameTable) (number : Nat) : Option String :=
  table.names[number]?

/-- Give the next number to a name that has none. -/
def push (table : NameTable) (name : String) (isNew : table.number? name = none) : NameTable where
  names := table.names.push name
  numbers := table.numbers.insert name table.size
  agree other number := by
    have absent (position : Nat) : table.names[position]? ≠ some name := fun found => by
      rw [number?, (table.agree name position).2 found] at isNew
      cases isNew
    simp only [Std.TreeMap.getElem?_insert, Array.getElem?_push, Std.LawfulEqCmp.compare_eq_iff_eq,
      size]
    by_cases sameName : name = other
    · subst sameName
      by_cases sameNumber : number = table.names.size
      · simp [sameNumber]
      · simp [sameNumber, absent, Ne.symm sameNumber]
    · by_cases sameNumber : number = table.names.size
      · simp [sameName, sameNumber, table.agree]
      · simp [sameName, sameNumber, table.agree]

/-- The number of a name, which is interned first if it has none. There is always a next number;
labels of 32 bits, of which there are finitely many, are given out by `internLabel`. -/
def intern (table : NameTable) (name : String) : NameTable × Nat :=
  match isNew : table.number? name with
  | some number => (table, number)
  | none => (table.push name isNew, table.size)

/-- Whether one interned name was numbered before another. -/
def precedes? (table : NameTable) (first second : String) : Option Bool := do
  return (← table.number? first) < (← table.number? second)

/-- The text of a number. -/
def numberText (number : Nat) : String :=
  "#" ++ toString number

/-- The names in quotes behind their numbers, in braces. -/
def text (table : NameTable) : String :=
  let entries := table.names.toList.zipIdx.map fun (name, number) =>
    toString number ++ ": \"" ++ name ++ "\""
  "\x7b" ++ ", ".intercalate entries ++ "\x7d"

/-- Names and numbers belong together in both directions. -/
theorem number?_eq_some_iff {table : NameTable} {name : String} {number : Nat} :
    table.number? name = some number ↔ table.name? number = some name :=
  table.agree name number

/-- Interning a name gives the number that the name has afterwards. -/
theorem number?_intern_self (table : NameTable) (name : String) :
    (table.intern name).1.number? name = some (table.intern name).2 := by
  unfold intern
  split
  · assumption
  · simp [number?, push]

/-- Interning keeps the numbers of all other names. -/
theorem number?_intern_of_ne {table : NameTable} {name other : String} (different : name ≠ other) :
    (table.intern name).1.number? other = table.number? other := by
  unfold intern
  split
  · rfl
  · simp [number?, push, Std.TreeMap.getElem?_insert, different]

/-- Interning keeps the names behind all numbers. -/
theorem name?_intern_of_some {table : NameTable} {name known : String} {number : Nat}
    (found : table.name? number = some known) :
    (table.intern name).1.name? number = some known := by
  unfold intern
  split
  · exact found
  · obtain ⟨inBounds, _⟩ := Array.getElem?_eq_some_iff.1 found
    simp only [name?, push] at found ⊢
    rw [Array.getElem?_push_lt inBounds]
    simpa [Array.getElem?_eq_getElem inBounds] using found

end NameTable

end Datalog
