import RecordQuery.Number.Shortest
import RecordQuery.Number.Reading
import RecordQuery.Number.Arithmetic
import RecordQuery.Text.Blank
import RecordQuery.Text.Case
import RecordQuery.Error
import RecordQuery.Value.Order
import RecordQuery.Value.Digest
import RecordQuery.Accessor
import RecordQuery.Like
import RecordQuery.Limit
import RecordQuery.Variables.Scope
import RecordQuery.Function.Signature
import RecordQuery.Function.Registry
import RecordQuery.Value.Comparison
import RecordQuery.Meaning.Operand
import RecordQuery.Meaning.Operator
import RecordQuery.Meaning.Predicate
import RecordQuery.Meaning.Call
import RecordQuery.Statement.Text
import RecordQuery.Statement.Preparation
import RecordQuery.Statement.Execution
import RecordQuery.Query
import RecordQuery.Proofs.Accessor.Steps
import RecordQuery.Proofs.Accessor.History
import RecordQuery.Proofs.Value.Order
import RecordQuery.Proofs.Statement.Ordering
import RecordQuery.Proofs.Statement.Batches
import RecordQuery.Proofs.Variables.Scope
import RecordQuery.Proofs.Meaning.Keeps
import RecordQuery.Proofs.Function.Keeps
import RecordQuery.Proofs.Statement.Keeps
import RecordQuery.Proofs.Meaning.OfExpr
import RecordQuery.Proofs.Statement.GroupOrder
import RecordQuery.Proofs.Statement.GroupStage
import RecordQuery.Proofs.Meaning.Subquery
import RecordQuery.Number.Integer
import RecordQuery.Proofs.Record.Order
import RecordQuery.Proofs.Statement.Grouping
import RecordQuery.Proofs.Statement.Hashing
import RecordQuery.Proofs.Evaluation.Conduct
import RecordQuery.Proofs.Evaluation.View
import RecordQuery.Proofs.Meaning.Conduct
import RecordQuery.Proofs.Function.Resolution
import RecordQuery.Proofs.Function.Conduct
import RecordQuery.Proofs.Meaning.Dependable
import RecordQuery.Proofs.Meaning.Preparation
import RecordQuery.Proofs.Meaning.Readiness
import RecordQuery.Proofs.Meaning.Caching
import RecordQuery.Proofs.Statement.Conduct
import RecordQuery.Proofs.Meaning.Trait
import RecordQuery.Proofs.Meaning.PerRow
import RecordQuery.Proofs.Statement.Readiness
import RecordQuery.Proofs.Statement.Independence
import RecordQuery.Proofs.Meaning.Types
import RecordQuery.Proofs.Accessor.Unbound
import RecordQuery.Proofs.Path.Grammar
import RecordQuery.Proofs.Statement.Conservation
import RecordQuery.Proofs.Statement.Script
import RecordQuery.Proofs.Meaning.Names
import RecordQuery.Proofs.Meaning.Numbering
import RecordQuery.Proofs.Statement.Naming
import RecordQuery.Proofs.Meaning.Refusal
import RecordQuery.Proofs.Statement.Refusal
import RecordQuery.Proofs.Meaning.Agreement
import RecordQuery.Proofs.Meaning.Mirroring
import RecordQuery.Proofs.Record.Reflexivity
import RecordQuery.Proofs.Statement.Assembly
import RecordQuery.Proofs.Statement.Beside
import RecordQuery.Proofs.Statement.Reordering
import RecordQuery.Proofs.Statement.SingleGroup
import RecordQuery.Proofs.Variables.Notifications
import RecordQuery.Proofs.Variables.Sharing
import RecordQuery.Proofs.Statement.Subscriptions
import RecordQuery.Proofs.Like.Replacement
import RecordQuery.Proofs.Like.Case
import RecordQuery.Proofs.Value.Numbers
import RecordQuery.Proofs.Meaning.Words
import RecordQuery.Proofs.Meaning.Bracketing
import RecordQuery.Proofs.Statement.Repetition
import RecordQuery.Proofs.Function.Scoring
import RecordQuery.Proofs.Function.Choice
import RecordQuery.Proofs.Value.Comparison
import RecordQuery.Proofs.Statement.Reversal
import RecordQuery.Proofs.Statement.ColumnOrder
import RecordQuery.Proofs.Statement.Failures
import RecordQuery.Proofs.Meaning.Recalling
import RecordQuery.Proofs.Meaning.FixedValues
import RecordQuery.Proofs.Meaning.Membership
import RecordQuery.Proofs.Value.Coercion
import RecordQuery.Proofs.Value.Distinct
import RecordQuery.Proofs.Meaning.Construction
import RecordQuery.Proofs.Path.Writing
import RecordQuery.Proofs.Record.Assignment
import RecordQuery.Proofs.Statement.Extremes
import RecordQuery.Proofs.Statement.Negation
