/-!
# Computations that can fail

Steps that are chained succeed if each of them does, and renaming errors changes no result.
`Alike` compares two computations by their results, without telling apart how they fail.
-/

namespace Datalog

variable {ε δ α β : Type}

/-- A chain of two computations succeeds if the second does with the result of the first. -/
theorem bind_eq_ok_iff {first : Except ε α} {second : α → Except ε β} {result : β} :
    first >>= second = .ok result ↔
      ∃ middle, first = .ok middle ∧ second middle = .ok result := by
  cases first with
  | error error =>
      refine iff_of_false (fun isOk => by cases isOk) ?_
      rintro ⟨_, isOk, _⟩
      cases isOk
  | ok middle =>
      constructor
      · intro isOk
        exact ⟨middle, rfl, isOk⟩
      · rintro ⟨_, same, isOk⟩
        cases same
        exact isOk

/-- A computation under other errors has the same results. -/
theorem mapError_eq_ok_iff {computation : Except ε α} {rename : ε → δ} {result : α} :
    computation.mapError rename = .ok result ↔ computation = .ok result := by
  cases computation with
  | error error => exact iff_of_false (fun isOk => by cases isOk) (fun isOk => by cases isOk)
  | ok found =>
      constructor
      · intro isOk
        cases isOk
        rfl
      · intro isOk
        cases isOk
        rfl

/-- A chain of two computations fails if the first does or the second does with its result. -/
theorem bind_eq_error_iff {first : Except ε α} {second : α → Except ε β} {failure : ε} :
    first >>= second = .error failure ↔
      first = .error failure ∨ ∃ middle, first = .ok middle ∧ second middle = .error failure := by
  cases first with
  | error other =>
      constructor
      · intro fails
        cases fails
        exact .inl rfl
      · rintro (same | ⟨_, isOk, _⟩)
        · cases same
          rfl
        · cases isOk
  | ok middle =>
      constructor
      · intro fails
        exact .inr ⟨middle, rfl, fails⟩
      · rintro (isError | ⟨_, same, fails⟩)
        · cases isError
        · cases same
          exact fails

/-- A computation that succeeds has a result. -/
theorem exists_eq_ok_of_isOk {computation : Except ε α} (succeeds : computation.isOk = true) :
    ∃ result, computation = .ok result := by
  cases computation with
  | error failure => cases succeeds
  | ok result => exact ⟨result, rfl⟩

/-- A computation under other errors fails when it does, with the renamed error. -/
theorem mapError_eq_error_iff {computation : Except ε α} {rename : ε → δ} {failure : δ} :
    computation.mapError rename = .error failure ↔
      ∃ cause, computation = .error cause ∧ rename cause = failure := by
  cases computation with
  | error cause =>
      constructor
      · intro fails
        cases fails
        exact ⟨cause, rfl, rfl⟩
      · rintro ⟨_, same, rfl⟩
        cases same
        rfl
  | ok result =>
      refine iff_of_false (fun fails => by cases fails) ?_
      rintro ⟨_, isError, _⟩
      cases isError

/-- A function of the result does not change how a computation fails. -/
theorem map_eq_error_iff {computation : Except ε α} {function : α → β} {failure : ε} :
    function <$> computation = .error failure ↔ computation = .error failure := by
  cases computation with
  | error cause => exact ⟨fun fails => by cases fails; rfl, fun fails => by cases fails; rfl⟩
  | ok result => exact iff_of_false nofun nofun

/-- Two computations fail together or have corresponding results. -/
inductive Alike (same : α → α → Prop) : Except ε α → Except ε α → Prop where
  | ok {left right : α} (areSame : same left right) : Alike same (.ok left) (.ok right)
  | error (left right : ε) : Alike same (.error left) (.error right)

/-- Computations are alike if a result of either has a counterpart. -/
theorem Alike.of_forall {same : α → α → Prop} {left right : Except ε α}
    (forth : ∀ first, left = .ok first → ∃ second, right = .ok second ∧ same first second)
    (back : ∀ second, right = .ok second → ∃ first, left = .ok first) :
    Alike same left right := by
  cases left with
  | ok first =>
      obtain ⟨second, rfl, areSame⟩ := forth first rfl
      exact .ok areSame
  | error failure =>
      cases right with
      | ok second =>
          obtain ⟨first, impossible⟩ := back second rfl
          cases impossible
      | error other => exact .error failure other

end Datalog
