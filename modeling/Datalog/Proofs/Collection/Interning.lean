import Mathlib.Data.Finset.Card
import Mathlib.Data.Finset.Dedup
import Mathlib.Data.List.Induction
import Datalog.Collection.NameTable

/-!
# Interning names one after the other

A table numbers names by the order in which they first come: the number of a name is that of
the different names before its first occurrence, and it stays what it was whatever is interned
later. Numbers are handed out in 32 bits, as labels, so this is so as long as there are no more
different names than labels (`NameTable.numbersDensely`).
-/

namespace Datalog

/-- The number of a name in 32 bits. -/
abbrev Label := UInt32

namespace NameTable

/-- The label of a name, which is interned first if it has none. -/
def internLabel (table : NameTable) (name : String) : NameTable × Label :=
  ((table.intern name).1, .ofNat (table.intern name).2)

/-- The label of a name, if it is interned. -/
def label? (table : NameTable) (name : String) : Option Label :=
  (table.number? name).map .ofNat

/-- The name behind a label, if there is one. -/
def labelled? (table : NameTable) (label : Label) : Option String :=
  table.name? label.toNat

/-- The table of names that are interned one after the other. -/
def internAll (names : List String) : NameTable :=
  names.foldl (fun table name => (table.intern name).1) ∅

variable {table : NameTable} {name : String} {names : List String} {number : Nat}

/-- Numbers of names are below their count. -/
theorem lt_size_of_number? (found : table.number? name = some number) : number < table.size :=
  (Array.getElem?_eq_some_iff.1 (number?_eq_some_iff.1 found)).1

/-- Interning a known name gives its number. -/
theorem intern_of_number? (found : table.number? name = some number) :
    table.intern name = (table, number) := by
  unfold intern
  split
  next other isOther =>
    rw [found] at isOther
    rw [Option.some.inj isOther]
  next isNew =>
    rw [found] at isNew
    cases isNew

/-- Interning a new name gives it the next number. -/
theorem intern_of_new (isNew : table.number? name = none) :
    (table.intern name).2 = table.size ∧ (table.intern name).1.size = table.size + 1 := by
  unfold intern
  split
  next found =>
    rw [isNew] at found
    cases found
  next => exact ⟨rfl, Array.size_push _⟩

/-- Interning a name makes it known, and no other. -/
theorem number?_intern_eq_none_iff {other : String} :
    (table.intern name).1.number? other = none ↔ table.number? other = none ∧ other ≠ name := by
  by_cases same : name = other
  · subst same
    simp [number?_intern_self]
  · rw [number?_intern_of_ne same]
    exact (and_iff_left (Ne.symm same)).symm

/-- Interning keeps the numbers of known names. -/
theorem number?_intern_of_some (found : table.number? name = some number) (other : String) :
    (table.intern other).1.number? name = some number := by
  by_cases same : other = name
  · rw [same, intern_of_number? found, found]
  · rw [number?_intern_of_ne same, found]

/-- One more name is interned last. -/
theorem internAll_concat (names : List String) (name : String) :
    internAll (names ++ [name]) = ((internAll names).intern name).1 :=
  List.foldl_concat _ _ _ _

/-- Exactly the names that were interned have numbers. -/
theorem number?_internAll_eq_none_iff :
    (internAll names).number? name = none ↔ name ∉ names := by
  induction names using List.reverseRecOn with
  | nil =>
      have noNumber : (internAll []).number? name = none := Std.TreeMap.getElem?_emptyc
      exact iff_of_true noNumber List.not_mem_nil
  | append_singleton names last inductionHypothesis =>
      rw [internAll_concat, number?_intern_eq_none_iff, inductionHypothesis, List.mem_append,
        List.mem_singleton, not_or]

/-- A table has as many names as there are different ones. -/
theorem size_internAll (names : List String) :
    (internAll names).size = names.toFinset.card := by
  induction names using List.reverseRecOn with
  | nil => rfl
  | append_singleton names last inductionHypothesis =>
      have isUnion : (names ++ [last]).toFinset = insert last names.toFinset := by
        ext name
        simp
      rw [internAll_concat, isUnion]
      cases found : (internAll names).number? last with
      | none =>
          have isNew : last ∉ names.toFinset := by
            rw [List.mem_toFinset]
            exact number?_internAll_eq_none_iff.1 found
          rw [(intern_of_new found).2, inductionHypothesis, Finset.card_insert_of_notMem isNew]
      | some number =>
          have isOld : last ∈ names.toFinset := by
            rw [List.mem_toFinset]
            by_contra isNew
            rw [number?_internAll_eq_none_iff.2 isNew] at found
            cases found
          rw [intern_of_number? found, inductionHypothesis, Finset.insert_eq_of_mem isOld]

/-- Names keep their numbers whatever is interned later. -/
theorem number?_internAll_append (found : (internAll names).number? name = some number)
    (more : List String) : (internAll (names ++ more)).number? name = some number := by
  induction more using List.reverseRecOn with
  | nil => rwa [List.append_nil]
  | append_singleton more last inductionHypothesis =>
      rw [← List.append_assoc, internAll_concat]
      exact number?_intern_of_some inductionHypothesis last

/-- A name has the number of the different names before its first occurrence. -/
theorem number?_internAll_of_first {before : List String} (isFirst : name ∉ before)
    (after : List String) :
    (internAll (before ++ name :: after)).number? name = some before.toFinset.card := by
  have isNew := number?_internAll_eq_none_iff.2 isFirst
  have isNumber : (internAll (before ++ [name])).number? name = some before.toFinset.card := by
    rw [internAll_concat, number?_intern_self, (intern_of_new isNew).1, size_internAll]
  rw [List.append_cons]
  exact number?_internAll_append isNumber after

/-- Labels that numbers below their count fit into tell the numbers. -/
theorem toNat_label (few : table.size ≤ UInt32.size) (isBelow : number < table.size) :
    (UInt32.ofNat number).toNat = number :=
  UInt32.toNat_ofNat_of_lt' (Nat.lt_of_lt_of_le isBelow few)

/-- A label of a name is its number, if all numbers fit. -/
theorem label?_eq_some_iff (few : table.size ≤ UInt32.size) {label : Label} :
    table.label? name = some label ↔ table.number? name = some label.toNat := by
  rw [label?, Option.map_eq_some_iff]
  constructor
  · rintro ⟨number, found, rfl⟩
    rw [toNat_label few (lt_size_of_number? found), found]
  · intro found
    exact ⟨label.toNat, found, UInt32.ofNat_toNat⟩

/-- Names and labels belong together in both directions, if all numbers fit. -/
theorem labelled?_eq_some_iff (few : table.size ≤ UInt32.size) {label : Label} :
    table.labelled? label = some name ↔ table.label? name = some label := by
  rw [label?_eq_some_iff few, number?_eq_some_iff, labelled?]

/-- Interning a name gives the label that it has afterwards. -/
theorem internLabel_of_label? (few : table.size ≤ UInt32.size) {label : Label}
    (found : table.label? name = some label) : table.internLabel name = (table, label) := by
  rw [internLabel, intern_of_number? ((label?_eq_some_iff few).1 found)]
  exact congrArg (Prod.mk table) UInt32.ofNat_toNat

/-- Names that are interned one after the other get stable and dense labels. -/
structure NumbersDensely (names : List String) : Prop where
  /-- A name gets the number of different names before its first occurrence, and from then on
  is found under this label, keeps it and is found by it. -/
  stable : ∀ before name after, names = before ++ name :: after → name ∉ before →
    ∃ label : Label, label.toNat = before.toFinset.card ∧
      ((internAll before).internLabel name).2 = label ∧
      ∀ between later, after = between ++ later →
        (internAll (before ++ name :: between)).label? name = some label ∧
        (internAll (before ++ name :: between)).internLabel name =
          (internAll (before ++ name :: between), label) ∧
        (internAll (before ++ name :: between)).labelled? label = some name
  /-- A name that was not interned has no label. -/
  absent : ∀ name, name ∉ names → (internAll names).label? name = none
  /-- The table counts the different names. -/
  size_eq : (internAll names).size = names.toFinset.card
  /-- Every label below the count is that of a name. -/
  dense : ∀ label : Label, label.toNat < (internAll names).size →
    ∃ name ∈ names, (internAll names).label? name = some label

/-- Names get stable and dense labels if no more than 32 bits can tell apart are different. -/
theorem numbersDensely (few : names.toFinset.card ≤ UInt32.size) : NumbersDensely names := by
  constructor
  · rintro before name after rfl isFirst
    have few_of (some others : List String) (isPart : before ++ name :: after = some ++ others) :
        (internAll some).size ≤ UInt32.size := by
      rw [size_internAll]
      refine Nat.le_trans (Finset.card_le_card fun known member => ?_) few
      rw [isPart, List.mem_toFinset, List.mem_append]
      exact .inl (List.mem_toFinset.1 member)
    have isBelow : before.toFinset.card < (internAll (before ++ name :: after)).size :=
      lt_size_of_number? (number?_internAll_of_first isFirst after)
    have isNumber := toNat_label (few_of _ [] (List.append_nil _).symm) isBelow
    refine ⟨.ofNat before.toFinset.card, isNumber, ?_, ?_⟩
    · rw [internLabel, (intern_of_new (number?_internAll_eq_none_iff.2 isFirst)).1,
        size_internAll]
    · rintro between later rfl
      have fewer := few_of (before ++ name :: between) later (by simp)
      have found : (internAll (before ++ name :: between)).label? name =
          some (.ofNat before.toFinset.card) := by
        rw [label?, number?_internAll_of_first isFirst]
        rfl
      exact ⟨found, internLabel_of_label? fewer found, (labelled?_eq_some_iff fewer).2 found⟩
  · intro name absent
    rw [label?, number?_internAll_eq_none_iff.2 absent]
    rfl
  · exact size_internAll names
  · intro label isBelow
    have found : (internAll names).labelled? label = some (internAll names).names[label.toNat] :=
      Array.getElem?_eq_getElem isBelow
    rw [labelled?_eq_some_iff (by rwa [size_internAll])] at found
    refine ⟨_, ?_, found⟩
    by_contra absent
    rw [label?, number?_internAll_eq_none_iff.2 absent] at found
    cases found

end NameTable

end Datalog
