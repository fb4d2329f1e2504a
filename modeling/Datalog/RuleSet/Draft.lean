import Datalog.Error
import Datalog.RuleSet.Basic
import Datalog.Source.Tree

/-!
# Drafts of rule sets

Clauses become facts and rules one after the other. A draft is what the clauses so far
amount to: a rule set, the number of anonymous wildcards, which are numbered through the
whole source so that each has a name of its own, and the head of each rule for later
complaints. Every use of a relation is held against its first one, and every rule must be
safe.
-/

namespace Datalog

/-- A fault and the token it is about. -/
structure Complaint where
  fault : Fault
  token : Source.Token
  deriving DecidableEq

/-- The meaning of the clauses so far. -/
structure Draft where
  ruleSet : RuleSet
  wildcards : Nat
  heads : Array Source.Token

/-- A step that extends the draft or ends in a complaint. -/
abbrev Drafting := StateT Draft (Except Complaint)

namespace Draft

/-- The draft of no clauses. -/
def empty : Draft := ⟨∅, 0, #[]⟩

/-- End with a complaint. -/
def complain {α : Type} (fault : Fault) (token : Source.Token) : Drafting α :=
  throw ⟨fault, token⟩

variable {τ : Type}

/-- Translate named arguments into a record, refusing repeated names. -/
def addFields (relation : Source.Token) (translate : Source.Term → Drafting τ) :
    List (Source.Token × Source.Term) → Record τ → Drafting (Record τ)
  | [], record => return record
  | (field, term) :: fields, record => do
      let translated ← translate term
      if record.hasField field.lexeme then
        complain (.duplicateField relation.lexeme field.lexeme) field
      else addFields relation translate fields (record.set field.lexeme translated)

/-- Hold the shape of an atom against that of its relation, which the first use decides. -/
def useShape (relation : Source.Token) (used : Shape) : Drafting Unit := do
  match (← get).ruleSet.shapeOf? relation.lexeme with
  | none =>
      modify fun draft => { draft with ruleSet := draft.ruleSet.declare relation.lexeme used }
  | some declared =>
      if declared ≠ used then complain (.shapeMismatch relation.lexeme declared used) relation

/-- Translate an atom: its arguments, then the use of its relation. -/
def translateAtom (translate : Source.Term → Drafting τ) (atom : Source.Atom) :
    Drafting (AtomOf τ) := do
  let args ← match atom.args with
    | .ordered terms => Args.ordered <$> terms.mapM translate
    | .named fields => Args.named <$> addFields atom.relation translate fields .empty
  useShape atom.relation args.shape
  return ⟨atom.relation.lexeme, args⟩

/-- The value of an argument of a fact. -/
def translateValue : Source.Term → Drafting Value
  | .literal _ value => return value
  | .identifier token => complain (.nonConstantFact token.lexeme) token
  | .wildcard token => complain (.nonConstantFact token.lexeme) token

/-- An argument of a rule head. -/
def translateHeadTerm : Source.Term → Drafting HeadTerm
  | .literal _ value => return .constant value
  | .identifier token => return .var token.lexeme
  | .wildcard token => complain (.misplacedWildcard token.lexeme .head) token

/-- A term of a rule body. A wildcard that is a mere underscore gets the next number. -/
def translateTerm : Source.Term → Drafting Term
  | .literal _ value => return .constant value
  | .identifier token => return .var token.lexeme
  | .wildcard token => do
      if token.lexeme = "_" then
        let number := (← get).wildcards
        modify fun draft => { draft with wildcards := number + 1 }
        return .wildcard ("_" ++ toString number)
      else return .wildcard token.lexeme

/-- A comparison between a variable and a term that is no wildcard. -/
def translateComparison (left : Source.Term) (operator : Source.Token) (right : Source.Term) :
    Drafting Constraint := do
  let .identifier name := left
    | complain (.leftOperandNotVariable left.token.lexeme) left.token
  let some comparison := Comparison.ofLexeme? operator.lexeme
    | complain (.unknownOperator operator.lexeme) operator
  if let .wildcard token := right then
    complain (.misplacedWildcard token.lexeme .constraint) token
  return ⟨name.lexeme, comparison, ← translateTerm right⟩

/-- Add the parts of a body to a rule, each to its list. -/
def addLiterals : List Source.Literal → Rule → Drafting Rule
  | [], rule => return rule
  | .positive atom :: body, rule => do
      let atom ← translateAtom translateTerm atom
      addLiterals body { rule with positive := rule.positive ++ [atom] }
  | .negated atom :: body, rule => do
      let atom ← translateAtom translateTerm atom
      addLiterals body { rule with negative := rule.negative ++ [atom] }
  | .comparison left operator right :: body, rule => do
      let constraint ← translateComparison left operator right
      addLiterals body { rule with constraints := rule.constraints ++ [constraint] }

/-- The token of a term that is a given name. -/
def naming? (name : String) : Source.Term → Option Source.Token
  | .identifier token => if token.lexeme = name then some token else none
  | _ => none

/-- The terms of a part of a body that stand in a place. -/
def termsIn (place : Place) : Source.Literal → List Source.Term
  | .negated atom => if place = .negatedAtom then atom.args.terms else []
  | .comparison left _ right => if place = .constraint then [left, right] else []
  | .positive _ => []

/-- The first token that names a variable in a place. -/
def occurrence? (head : Source.Atom) (body : List Source.Literal) (name : String) (place : Place) :
    Option Source.Token :=
  let terms := match place with
    | .head => head.args.terms
    | _ => body.flatMap (termsIn place)
  terms.findSome? (naming? name)

/-- Translate a rule, which must be safe. -/
def translateRule (head : Source.Atom) (body : List Source.Literal) : Drafting Rule := do
  let translatedHead ← translateAtom translateHeadTerm head
  let rule ← addLiterals body ⟨translatedHead, [], [], []⟩
  match rule.unboundVariable? with
  | some (name, place) =>
      complain (.unsafeVariable name place)
        ((occurrence? head body name place).getD head.relation)
  | none => return rule

/-- Add a fact to the draft. -/
def addFact (fact : Fact) (draft : Draft) : Draft :=
  { draft with ruleSet := (draft.ruleSet.addFact fact).1 }

/-- Add a rule to the draft, with its head if it is new. -/
def addRule (head : Source.Token) (rule : Rule) (draft : Draft) : Draft :=
  let (ruleSet, isNew) := draft.ruleSet.addRule rule
  { draft with ruleSet, heads := if isNew then draft.heads.push head else draft.heads }

/-- Add a clause to the draft. -/
def addClause : Source.Clause → Drafting Unit
  | .fact atom => do
      let translated ← translateAtom translateValue atom
      modify (addFact ⟨translated.relation, translated.terms⟩)
  | .rule head body => do
      let rule ← translateRule head body
      modify (addRule head.relation rule)

/-- The draft of clauses. -/
def ofClauses (clauses : List Source.Clause) : Except Complaint Draft := do
  let (_, draft) ← (clauses.forM addClause).run empty
  return draft

end Draft

/-- A complaint as an error in the source that its token comes from. -/
def Complaint.error (source : String) (complaint : Complaint) : Error :=
  .faulty complaint.fault (some (.locate source complaint.token.offset))

end Datalog
