import Datalog.Value.Basic

/-!
# Terms

The arguments of atoms. A wildcard matches anything and binds nothing, so its name does not
count in comparisons. Rule heads have no wildcards, since every argument of a derived fact
needs a value.
-/

namespace Datalog

/-- An argument of a body atom or the right operand of a constraint. -/
inductive Term where
  | constant (value : Value)
  | var (name : String)
  | wildcard (name : String)
  deriving DecidableEq, Inhabited

/-- An argument of a rule head. -/
inductive HeadTerm where
  | constant (value : Value)
  | var (name : String)
  deriving DecidableEq, Inhabited

namespace Term

/-- The name of a variable. -/
def var? : Term → Option String
  | var name => some name
  | _ => none

/-- All wildcards are the same term. -/
instance : Canonical Term where
  canonical
    | constant value => constant (canonical value)
    | var name => var name
    | wildcard _ => wildcard "_"

/-- A wildcard feeds nothing but that it is one. -/
instance : HashFeed Term where
  feed
    | constant value => .variant 0 :: feed value
    | var name => [.variant 1, .text name]
    | wildcard _ => [.variant 2]
  feed_canonical term := by
    cases term with
    | constant value => exact congrArg (.variant 0 :: ·) (HashFeed.feed_canonical value)
    | _ => rfl

end Term

namespace HeadTerm

/-- The name of a variable. -/
def var? : HeadTerm → Option String
  | var name => some name
  | constant _ => none

instance : Canonical HeadTerm where
  canonical
    | constant value => constant (canonical value)
    | var name => var name

instance : HashFeed HeadTerm where
  feed
    | constant value => .variant 0 :: feed value
    | var name => [.variant 1, .text name]
  feed_canonical term := by
    cases term with
    | constant value => exact congrArg (.variant 0 :: ·) (HashFeed.feed_canonical value)
    | var name => rfl

end HeadTerm

end Datalog
