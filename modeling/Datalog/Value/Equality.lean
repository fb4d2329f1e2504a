import Datalog.Value.Order

/-!
# Equality of values and their order

Values are equal up to representation exactly when the total order does not tell them apart.
Numbers carry the weight of this: a float is represented by the integer at its place on the
number line if there is one, and floats at other places have a single representation.
-/

namespace Datalog

/-- Kinds of the same rank are the same. -/
theorem Kind.rank_inj {left right : Kind} : left.rank = right.rank ↔ left = right := by
  cases left <;> cases right <;> decide

namespace Value

/-- A float is represented by an integer exactly when it lies at the same point. -/
theorem canonical_float_eq_int_iff {number : Binary64} {integer : Int64} :
    canonical (float number) = int integer ↔
      NumberLine.ofFloat number = NumberLine.ofInt integer.toInt := by
  rw [← Binary64.toInt64?_eq_some_iff]
  simp only [canonical]
  cases number.toInt64? with
  | none => cases number.isNaN <;> simp
  | some found => simp

/-- A float that is no integer is represented by a float. -/
theorem canonical_float_of_none {number : Binary64} (noInteger : number.toInt64? = none) :
    canonical (float number) = float (if number.isNaN then Binary64.nan else number) := by
  simp only [canonical, noInteger]
  cases number.isNaN <;> rfl

/-- Floats are equal exactly when they lie at the same point. -/
theorem canonical_float_eq_iff {left right : Binary64} :
    canonical (float left) = canonical (float right) ↔
      NumberLine.ofFloat left = NumberLine.ofFloat right := by
  cases ofLeft : left.toInt64? with
  | some integer =>
      have point := Binary64.toInt64?_eq_some_iff.1 ofLeft
      rw [canonical_float_eq_int_iff.2 point, point, eq_comm, canonical_float_eq_int_iff, eq_comm]
  | none =>
      cases ofRight : right.toInt64? with
      | some integer =>
          have point := Binary64.toInt64?_eq_some_iff.1 ofRight
          rw [canonical_float_eq_int_iff.2 point, point, canonical_float_eq_int_iff]
      | none =>
          rw [canonical_float_of_none ofLeft, canonical_float_of_none ofRight, float.injEq]
          have nonzero : NumberLine.ofFloat left ≠ .finite 0 := fun zero => by
            have isInteger : NumberLine.ofFloat left = .ofInt (0 : Int64).toInt := by
              rw [zero, Int64.toInt_zero, NumberLine.ofInt, Int.zero_mul]
            rw [Binary64.toInt64?_eq_some_iff.2 isInteger] at ofLeft
            cases ofLeft
          cases leftNaN : left.isNaN <;> cases rightNaN : right.isNaN
          · exact ⟨congrArg NumberLine.ofFloat,
              fun equal => NumberLine.eq_of_ofFloat_eq equal leftNaN nonzero⟩
          · constructor
            · intro equal
              rw [if_neg Bool.false_ne_true, if_pos rfl] at equal
              exact absurd (equal ▸ leftNaN) (by decide)
            · intro equal
              rw [NumberLine.ofFloat_eq_nan_iff.2 rightNaN, NumberLine.ofFloat_eq_nan_iff,
                leftNaN] at equal
              cases equal
          · constructor
            · intro equal
              rw [if_pos rfl, if_neg Bool.false_ne_true] at equal
              exact absurd (equal ▸ rightNaN) (by decide)
            · intro equal
              rw [NumberLine.ofFloat_eq_nan_iff.2 leftNaN, eq_comm, NumberLine.ofFloat_eq_nan_iff,
                rightNaN] at equal
              cases equal
          · simp [NumberLine.ofFloat_eq_nan_iff.2 leftNaN, NumberLine.ofFloat_eq_nan_iff.2 rightNaN]

/-- Equality up to representation keeps the kind. -/
theorem kind_canonical (value : Value) : (canonical value).kind = value.kind := by
  cases value with
  | float number =>
      simp only [canonical]
      cases number.toInt64? <;> cases number.isNaN <;> rfl
  | _ => rfl

/-- Values of different kinds compare by their kinds. -/
theorem cmp_of_kind_ne {left right : Value} (different : left.kind ≠ right.kind) :
    left.cmp right = compare left.kind.rank right.kind.rank := by
  cases left <;> cases right <;> first | rfl | exact absurd rfl different

/-- Values are equal exactly when the total order does not tell them apart. -/
theorem beq_iff_cmp_eq {left right : Value} : (left == right) = true ↔ left.cmp right = .eq := by
  rw [Canonical.beq_iff]
  by_cases same : left.kind = right.kind
  · cases left <;> cases right <;> simp only [kind, reduceCtorEq] at same
    case null.null => simp [cmp]
    case bool.bool => simp [cmp, canonical]
    case int.int => simp [cmp, canonical, Int64.toInt_inj]
    case int.float number =>
      rw [cmp_of_points rfl rfl, NumberLine.cmp_eq_iff]
      exact eq_comm.trans (canonical_float_eq_int_iff.trans eq_comm)
    case float.int =>
      rw [cmp_of_points rfl rfl, NumberLine.cmp_eq_iff]
      exact canonical_float_eq_int_iff
    case float.float =>
      rw [cmp_of_points rfl rfl, NumberLine.cmp_eq_iff]
      exact canonical_float_eq_iff
    case string.string => simp [cmp, canonical]
    case keyword.keyword => simp [cmp, canonical]
  · rw [cmp_of_kind_ne same, Std.LawfulEqCmp.compare_eq_iff_eq, Kind.rank_inj]
    refine iff_of_false (fun equal => same ?_) same
    rw [← kind_canonical left, equal, kind_canonical]

end Value

/-- Lists compare as equal exactly when their elements represent the same values. -/
theorem compareLex_cmp_eq_iff {left right : List Value} :
    List.compareLex Value.cmp left right = .eq ↔ left.map canonical = right.map canonical := by
  induction left generalizing right with
  | nil => cases right <;> simp [List.compareLex]
  | cons first rest inductionHypothesis =>
      cases right with
      | nil => simp [List.compareLex]
      | cons other others =>
          rw [List.map_cons, List.map_cons, List.cons.injEq, ← Canonical.beq_iff,
            Value.beq_iff_cmp_eq, ← inductionHypothesis]
          simp only [List.compareLex]
          cases first.cmp other <;> simp

end Datalog
