/-!
# Records

A `Record` gives values to field names. Its entries are kept in strictly ascending order of
the names, so that equal records have equal entries and the order of the entries can serve
as an order of positions. Names compare by code point.
-/

namespace Datalog

/-- A finite assignment of values to field names, in ascending order of the names. -/
structure Record (τ : Type) where
  entries : List (String × τ)
  ascending : entries.Pairwise fun earlier later => compare earlier.1 later.1 = .lt

namespace Record

variable {τ σ : Type}

instance [DecidableEq τ] : DecidableEq (Record τ) := fun left right =>
  decidable_of_iff (left.entries = right.entries)
    ⟨fun equal => by cases left; cases right; cases equal; rfl, congrArg entries⟩

/-- Entries with one field set, at its place in the order. -/
def setEntry (field : String) (value : τ) : List (String × τ) → List (String × τ)
  | [] => [(field, value)]
  | entry :: rest =>
      match compare field entry.1 with
      | .lt => (field, value) :: entry :: rest
      | .eq => (field, value) :: rest
      | .gt => entry :: setEntry field value rest

/-- Setting a field adds no other name. -/
theorem mem_setEntry {field : String} {value : τ} {entries : List (String × τ)}
    {entry : String × τ} (member : entry ∈ setEntry field value entries) :
    entry = (field, value) ∨ entry ∈ entries := by
  induction entries with
  | nil => simpa [setEntry] using member
  | cons first rest inductionHypothesis =>
      simp only [setEntry] at member
      split at member <;> simp only [List.mem_cons] at member ⊢
      · exact member
      · rcases member with here | there
        · exact .inl here
        · exact .inr (.inr there)
      · rcases member with here | there
        · exact .inr (.inl here)
        · rcases inductionHypothesis there with here | there
          · exact .inl here
          · exact .inr (.inr there)

/-- Setting a field keeps the names ascending. -/
theorem pairwise_setEntry {field : String} {value : τ} {entries : List (String × τ)}
    (ascending : entries.Pairwise fun earlier later => compare earlier.1 later.1 = .lt) :
    (setEntry field value entries).Pairwise
      fun earlier later => compare earlier.1 later.1 = .lt := by
  induction entries with
  | nil => exact List.pairwise_singleton ..
  | cons first rest inductionHypothesis =>
      have ⟨firstLess, restAscending⟩ := List.pairwise_cons.1 ascending
      simp only [setEntry]
      split
      next isLess =>
        refine List.pairwise_cons.2 ⟨fun entry member => ?_, ascending⟩
        rcases List.mem_cons.1 member with rfl | there
        · exact isLess
        · exact Std.TransCmp.lt_trans isLess (firstLess entry there)
      next isEqual =>
        refine List.pairwise_cons.2 ⟨fun entry member => ?_, restAscending⟩
        rw [Std.LawfulEqCmp.eq_of_compare isEqual]
        exact firstLess entry member
      next isGreater =>
        refine List.pairwise_cons.2 ⟨fun entry member => ?_, inductionHypothesis restAscending⟩
        rcases mem_setEntry member with rfl | there
        · exact Std.OrientedCmp.gt_iff_lt.1 isGreater
        · exact firstLess entry there

/-- The record without fields. -/
def empty : Record τ := ⟨[], .nil⟩

/-- The record with one field set; an earlier value of that field is replaced. -/
def set (record : Record τ) (field : String) (value : τ) : Record τ :=
  ⟨setEntry field value record.entries, pairwise_setEntry record.ascending⟩

/-- The record of a list of fields; of repeated names the last one counts. -/
def ofList (entries : List (String × τ)) : Record τ :=
  entries.foldl (fun record entry => record.set entry.1 entry.2) empty

/-- The field names in ascending order. -/
def fields (record : Record τ) : List String :=
  record.entries.map Prod.fst

/-- The values in the order of their fields. -/
def values (record : Record τ) : List τ :=
  record.entries.map Prod.snd

/-- Whether a field has a value. -/
def hasField (record : Record τ) (field : String) : Bool :=
  record.entries.any fun entry => entry.1 == field

/-- The record with a function applied to every value. -/
def map (function : τ → σ) (record : Record τ) : Record σ where
  entries := record.entries.map fun entry => (entry.1, function entry.2)
  ascending := List.pairwise_map.2 record.ascending

/-- Every field name is listed once. -/
theorem nodup_fields (record : Record τ) : record.fields.Nodup := by
  refine List.pairwise_map.2 (record.ascending.imp fun less same => ?_)
  simp [same] at less

/-- Mapping the values keeps the fields. -/
@[simp] theorem fields_map (function : τ → σ) (record : Record τ) :
    (record.map function).fields = record.fields := by
  simp [map, fields, Function.comp_def]

/-- The values of a mapped record are the mapped values. -/
@[simp] theorem values_map (function : τ → σ) (record : Record τ) :
    (record.map function).values = record.values.map function := by
  simp [map, values, Function.comp_def]

end Record

end Datalog
