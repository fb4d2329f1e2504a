import Datalog.Rule.Basic
import Datalog.Value.Printer

/-!
# Text of rules

Terms, atoms, facts and rules print as the clauses that denote them. Parts of a list are
separated by a comma and a space, and named arguments stand behind their field and a colon.
-/

namespace Datalog

/-- Items separated by a comma and a space. -/
def commaSeparated (items : List String) : String :=
  ", ".intercalate items

/-- Fields with the text of their values. -/
def fieldTexts (entries : List (String × String)) : List String :=
  entries.map fun entry => entry.1 ++ ": " ++ entry.2

/-- The text of a term. -/
def Term.text : Term → String
  | constant value => value.text
  | var name => name
  | wildcard name => name

/-- The text of a head term. -/
def HeadTerm.text : HeadTerm → String
  | constant value => value.text
  | var name => name

/-- The text of arguments without their parentheses. -/
def Args.text {τ : Type} (termText : τ → String) : Args τ → String
  | ordered terms => commaSeparated (terms.map termText)
  | named fields => commaSeparated (fieldTexts (fields.map termText).entries)

/-- A relation with the text of its arguments in parentheses. -/
def applicationText (relation arguments : String) : String :=
  relation ++ "(" ++ arguments ++ ")"

/-- The text of a body atom. -/
def Atom.text (atom : Atom) : String :=
  applicationText atom.relation (atom.args.text Term.text)

/-- The text of a head atom. -/
def HeadAtom.text (head : HeadAtom) : String :=
  applicationText head.relation (head.args.text HeadTerm.text)

/-- The text of a constraint. -/
def Constraint.text (constraint : Constraint) : String :=
  constraint.left ++ " " ++ constraint.operator.symbol ++ " " ++ constraint.right.text

/-- The text of a shape: an arity behind a slash, or field names in braces. -/
def Shape.text : Shape → String
  | ordered arity => "ordered/" ++ toString arity
  | named fields => "named \x7b" ++ commaSeparated fields ++ "\x7d"

/-- The text of a rule with its full stop: positive atoms, then negated atoms, then
constraints. -/
def Rule.text (rule : Rule) : String :=
  let body := rule.positive.map Atom.text ++ rule.negative.map (fun atom => "not " ++ atom.text) ++
    rule.constraints.map Constraint.text
  rule.head.text ++ (if body.isEmpty then "" else " :- " ++ commaSeparated body) ++ "."

/-- The text of a fact without its full stop. Values stand behind field names if the shape
names a field for each of them. -/
def Fact.textIn (fact : Fact) : Option Shape → String
  | some (.named fields) =>
      if fields.length = fact.values.length then
        applicationText fact.relation
          (commaSeparated (fieldTexts (fields.zip (fact.values.map Value.text))))
      else applicationText fact.relation (commaSeparated (fact.values.map Value.text))
  | _ => applicationText fact.relation (commaSeparated (fact.values.map Value.text))

/-- The text of a fact without field names. -/
def Fact.text (fact : Fact) : String :=
  fact.textIn none

end Datalog
