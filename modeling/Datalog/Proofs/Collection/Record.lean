import Mathlib.Data.List.Basic
import Datalog.Collection.Record

/-!
# Building records

A record has exactly the fields that were set, and fields that are set in ascending order come
out as they are (`Record.ofList_entries`). Fields with different names can be set in any order
(`Record.ofList_eq_of_perm`).
-/

namespace Datalog.Record

variable {τ σ : Type}

/-- Setting a field sets no other, and keeps those that are set. -/
theorem exists_mem_setEntry_iff {field name : String} {value : τ}
    {entries : List (String × τ)} :
    (∃ entry ∈ setEntry field value entries, entry.1 = name) ↔
      field = name ∨ ∃ entry ∈ entries, entry.1 = name := by
  induction entries with
  | nil => simp [setEntry]
  | cons first rest inductionHypothesis =>
      rw [setEntry]
      split
      next => simp only [List.exists_mem_cons_iff]
      next isEqual =>
        have same := Std.LawfulEqCmp.eq_of_compare isEqual
        simp only [List.exists_mem_cons_iff, same, or_self_left]
      next => simp only [List.exists_mem_cons_iff, inductionHypothesis, or_left_comm]

/-- A record has the fields that were set. -/
theorem hasField_set {record : Record τ} {field name : String} {value : τ} :
    (record.set field value).hasField name = true ↔
      field = name ∨ record.hasField name = true := by
  simpa [hasField, set] using exists_mem_setEntry_iff

/-- A field behind all others is set at the end. -/
theorem setEntry_of_forall_lt {field : String} {value : τ} {entries : List (String × τ)}
    (isLast : ∀ entry ∈ entries, compare entry.1 field = .lt) :
    setEntry field value entries = entries ++ [(field, value)] := by
  induction entries with
  | nil => rfl
  | cons first rest inductionHypothesis =>
      obtain ⟨isBehind, isLast⟩ := List.forall_mem_cons.1 isLast
      have isGreater : compare field first.1 = .gt := Std.OrientedCmp.gt_iff_lt.2 isBehind
      rw [setEntry, isGreater, List.cons_append]
      exact congrArg (first :: ·) (inductionHypothesis isLast)

/-- Setting ascending fields behind those of a record appends them. -/
theorem entries_foldl_set {record : Record τ} {entries : List (String × τ)}
    (ascending : (record.entries ++ entries).Pairwise
      fun earlier later => compare earlier.1 later.1 = .lt) :
    (entries.foldl (fun record entry => record.set entry.1 entry.2) record).entries =
      record.entries ++ entries := by
  induction entries generalizing record with
  | nil => simp
  | cons entry entries inductionHypothesis =>
      have isLast : ∀ earlier ∈ record.entries, compare earlier.1 entry.1 = .lt :=
        fun earlier member =>
          (List.pairwise_append.1 ascending).2.2 earlier member entry List.mem_cons_self
      have appended : (record.set entry.1 entry.2).entries = record.entries ++ [entry] :=
        setEntry_of_forall_lt isLast
      rw [List.foldl_cons, inductionHypothesis, appended, List.append_assoc,
        List.singleton_append]
      rw [appended, List.append_assoc]
      exact ascending

/-- Records with the same entries are the same. -/
theorem ext_entries {left right : Record τ} (same : left.entries = right.entries) :
    left = right := by
  cases left
  cases right
  cases same
  rfl

/-- The fields of a record, set one after the other, give the record again. -/
theorem ofList_entries (record : Record τ) : ofList record.entries = record := by
  have ascending : ((empty : Record τ).entries ++ record.entries).Pairwise
      fun earlier later => compare earlier.1 later.1 = .lt := record.ascending
  exact ext_entries (entries_foldl_set ascending)

section Order

variable {record : Record τ} {entries left right : List (String × τ)}

/-- Setting a field that is not set yet adds one entry. -/
theorem perm_setEntry {field : String} {value : τ}
    (isNew : ∀ entry ∈ entries, entry.1 ≠ field) :
    (setEntry field value entries).Perm ((field, value) :: entries) := by
  induction entries with
  | nil => exact .refl _
  | cons first rest inductionHypothesis =>
      obtain ⟨different, isNew⟩ := List.forall_mem_cons.1 isNew
      rw [setEntry]
      split
      next => exact .refl _
      next isEqual => exact absurd (Std.LawfulEqCmp.eq_of_compare isEqual).symm different
      next => exact ((inductionHypothesis isNew).cons first).trans (.swap _ _ _)

/-- Setting fields with different names adds an entry for each of them. -/
theorem perm_entries_foldl_set
    (distinct : ((record.entries ++ entries).map Prod.fst).Nodup) :
    (entries.foldl (fun record entry => record.set entry.1 entry.2) record).entries.Perm
      (record.entries ++ entries) := by
  induction entries generalizing record with
  | nil => simp
  | cons entry entries inductionHypothesis =>
      have isNew : ∀ earlier ∈ record.entries, earlier.1 ≠ entry.1 := by
        intro earlier member same
        rw [List.map_append, List.map_cons] at distinct
        refine (List.nodup_append.1 distinct).2.2 earlier.1 ?_ entry.1 List.mem_cons_self same
        exact List.mem_map_of_mem member
      have added : ((record.set entry.1 entry.2).entries ++ entries).Perm
          (record.entries ++ entry :: entries) :=
        ((perm_setEntry isNew).append_right entries).trans List.perm_middle.symm
      refine (inductionHypothesis ?_).trans added
      exact ((added.map Prod.fst).nodup_iff).2 distinct

/-- A record of fields with different names has these entries. -/
theorem perm_entries_ofList (distinct : (entries.map Prod.fst).Nodup) :
    (ofList entries).entries.Perm entries := by
  have fromEmpty : (((empty : Record τ).entries ++ entries).map Prod.fst).Nodup := distinct
  exact perm_entries_foldl_set fromEmpty

/-- Fields with different names give the same record in any order. -/
theorem ofList_eq_of_perm (perm : left.Perm right) (distinct : (left.map Prod.fst).Nodup) :
    ofList left = ofList right := by
  have same := ((perm_entries_ofList distinct).trans perm).trans
    (perm_entries_ofList ((perm.map Prod.fst).nodup_iff.1 distinct)).symm
  refine ext_entries (same.eq_of_pairwise ?_ (ofList left).ascending (ofList right).ascending)
  intro first second _ _ isLess isGreater
  rw [Std.OrientedCmp.gt_iff_lt.2 isLess] at isGreater
  cases isGreater

end Order

section Map

variable {function : τ → σ}

/-- Values can be mapped before a field is set or after. -/
theorem map_setEntry (field : String) (value : τ) (entries : List (String × τ)) :
    (setEntry field value entries).map (fun entry => (entry.1, function entry.2)) =
      setEntry field (function value) (entries.map fun entry => (entry.1, function entry.2)) := by
  induction entries with
  | nil => rfl
  | cons first rest inductionHypothesis =>
      rw [setEntry, List.map_cons, setEntry]
      cases compare field first.1 <;> simp [inductionHypothesis]

/-- Values can be mapped before a record is built or after. -/
theorem map_ofList (entries : List (String × τ)) :
    (ofList entries).map function =
      ofList (entries.map fun entry => (entry.1, function entry.2)) := by
  suffices general : ∀ record : Record τ,
      (entries.foldl (fun record entry => record.set entry.1 entry.2) record).map function =
        (entries.map fun entry => (entry.1, function entry.2)).foldl
          (fun record entry => record.set entry.1 entry.2) (record.map function) from
    general empty
  intro record
  induction entries generalizing record with
  | nil => rfl
  | cons entry entries inductionHypothesis =>
      rw [List.foldl_cons, List.map_cons, List.foldl_cons, inductionHypothesis]
      have sameStart : (record.set entry.1 entry.2).map function =
          (record.map function).set entry.1 (function entry.2) :=
        ext_entries (map_setEntry entry.1 entry.2 record.entries)
      rw [sameStart]

end Map

end Datalog.Record
