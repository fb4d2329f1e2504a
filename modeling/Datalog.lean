import Datalog.Number.Binary64
import Datalog.Number.Decimal
import Datalog.Number.Line
import Datalog.Number.Comparison
import Datalog.Text.Alphabetic
import Datalog.Text.Numeric
import Datalog.Text.CharClass
import Datalog.Text.Position
import Datalog.Text.Quoted
import Datalog.Value.Basic
import Datalog.Value.Order
import Datalog.Value.Equality
import Datalog.Value.Printer
import Datalog.Value.Comparison
import Datalog.Collection.OrderedSet
import Datalog.Collection.Members
import Datalog.Collection.Record
import Datalog.Collection.NameTable
import Datalog.Value.Canonical
import Datalog.Rule.Term
import Datalog.Rule.Atom
import Datalog.Rule.Basic
import Datalog.Rule.Printer
import Datalog.Rule.Safety
import Datalog.RuleSet.Basic
import Datalog.Error
import Datalog.RuleSet.Check
import Datalog.RuleSet.Printer
import Datalog.Stratification.Search
import Datalog.Stratification.LowlinkSearch
import Datalog.Stratification.Graph
import Datalog.Stratification.Basic
import Datalog.Stratification.Report
import Datalog.FactStore.Basic
import Datalog.FactStore.Printer
import Datalog.Evaluation.Bindings
import Datalog.Evaluation.Join
import Datalog.Evaluation.Passes
import Datalog.Evaluation.Basic
import Datalog.Source.Tree
import Datalog.Source.Parser
import Datalog.Source.Lexeme
import Datalog.Source.Grammar
import Datalog.Source.Program
import Datalog.RuleSet.Draft
import Datalog.RuleSet.Compile
import Datalog.CommandLine.Files
import Datalog.CommandLine
import Datalog.Main
import Datalog.Proofs.Stratification.Search
import Datalog.Proofs.Stratification.Components
import Datalog.Proofs.Stratification.Dependencies
import Datalog.Proofs.Stratification.NegativeCycle
import Datalog.Proofs.Stratification.Order
import Datalog.Proofs.Evaluation.Model
import Datalog.Proofs.Evaluation.Matching
import Datalog.Proofs.Evaluation.Join
import Datalog.Proofs.Evaluation.Partition
import Datalog.Proofs.Evaluation.Passes
import Datalog.Proofs.Evaluation.Consequences
import Datalog.Proofs.Evaluation.Closure
import Datalog.Proofs.Evaluation.SemiNaive
import Datalog.Proofs.Evaluation.StratifiedModel
import Datalog.Proofs.RuleSet.Equality
import Datalog.Proofs.Evaluation.Locality
import Datalog.Proofs.Evaluation.Definitions
import Datalog.Proofs.Evaluation.Stages
import Datalog.Proofs.RuleSet.Check
import Datalog.Proofs.FactStore.Content
import Datalog.Proofs.Evaluation.OrderIndependence
import Datalog.Proofs.Evaluation.Cone
import Datalog.Proofs.FactStore.Insertion
import Datalog.Proofs.FactStore.History
import Datalog.Proofs.RuleSet.Declared
import Datalog.Proofs.Collection.Record
import Datalog.Proofs.RuleSet.Draft
import Datalog.Proofs.RuleSet.Statements
import Datalog.Proofs.RuleSet.Acceptance
import Datalog.Proofs.RuleSet.Rearrangement
import Datalog.Proofs.Evaluation.Idempotence
import Datalog.Proofs.Evaluation.Monotonicity
import Datalog.Proofs.Evaluation.Candidates
import Datalog.Proofs.Evaluation.Termination
import Datalog.Proofs.Evaluation.Outcome
import Datalog.Proofs.Evaluation.Limits
import Datalog.Proofs.Number.Decimal
import Datalog.Proofs.Source.Completeness
import Datalog.Proofs.Source.Translation
import Datalog.Proofs.Source.ClauseEnds
import Datalog.Proofs.Source.Failures
import Datalog.Proofs.Source.Recovery
import Datalog.Proofs.Number.Text
import Datalog.Proofs.Source.Literals
import Datalog.Proofs.Source.Concatenation
import Datalog.Proofs.RuleSet.Writing
import Datalog.Proofs.FactStore.Text
import Datalog.Proofs.RuleSet.Restatement
import Datalog.Proofs.RuleSet.Recompilation
import Datalog.Proofs.CommandLine.Output
import Datalog.Proofs.RuleSet.Loosening
import Datalog.Proofs.RuleSet.Replacement
import Datalog.Proofs.Value.Meaning
import Datalog.Proofs.Value.Operators
import Datalog.Proofs.RuleSet.StructuralEquality
import Datalog.Proofs.Evaluation.Invariant
import Datalog.Proofs.Evaluation.Extension
import Datalog.Proofs.Evaluation.NestedLoop
import Datalog.Proofs.Evaluation.Lookup
import Datalog.Proofs.Evaluation.SafeMatches
import Datalog.Proofs.Source.Strings
import Datalog.Proofs.FactStore.CanonicalText
import Datalog.Proofs.RuleSet.ClauseByClause
import Datalog.Proofs.RuleSet.Culprits
import Datalog.Proofs.RuleSet.Occurrences
import Datalog.Proofs.RuleSet.Fields
import Datalog.Proofs.RuleSet.Additions
import Datalog.Proofs.Source.Positions
import Datalog.Proofs.Collection.Interning
import Datalog.Proofs.Stratification.EdgeTable
import Datalog.Proofs.Stratification.Lowlinks
import Datalog.Proofs.Stratification.LowlinkComponents
import Datalog.Proofs.Stratification.LowlinkOrder
