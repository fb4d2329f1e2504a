import Datalog.Value.Basic

/-!
# Clauses as written

The structure of a source text before it is given a meaning. Every lexeme remembers where it
begins, so that later complaints can point at it; arguments keep the order in which they
were written, and repeated field names are still there.
-/

namespace Datalog.Source

/-- A lexeme and the offset of its first byte in the source. -/
structure Token where
  lexeme : String
  offset : Nat
  deriving DecidableEq, Inhabited

/-- An argument or an operand. -/
inductive Term where
  | literal (token : Token) (value : Value)
  | identifier (token : Token)
  | wildcard (token : Token)
  deriving DecidableEq, Inhabited

/-- The token a term was read from. -/
def Term.token : Term → Token
  | literal token _ => token
  | identifier token => token
  | wildcard token => token

/-- The arguments of an atom. -/
inductive Args where
  | ordered (terms : List Term)
  | named (fields : List (Token × Term))
  deriving DecidableEq

/-- The terms of arguments as written. -/
def Args.terms : Args → List Term
  | ordered terms => terms
  | named fields => fields.map Prod.snd

/-- A relation with its arguments. -/
structure Atom where
  relation : Token
  args : Args
  deriving DecidableEq

/-- A part of a rule body. -/
inductive Literal where
  | positive (atom : Atom)
  | negated (atom : Atom)
  | comparison (left : Term) (operator : Token) (right : Term)
  deriving DecidableEq

/-- A fact, or a rule with a body. -/
inductive Clause where
  | fact (head : Atom)
  | rule (head : Atom) (body : List Literal)
  deriving DecidableEq

end Datalog.Source
