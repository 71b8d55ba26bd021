import DecisionTables.Config.Build
import DecisionTables.Config.Encoding
import DecisionTables.Table.Evaluation
import DecisionTables.Table.Steps
import DecisionTables.Text.Align
import DecisionTables.Proofs.Number.Decimal
import DecisionTables.Proofs.Number.Numeral
import DecisionTables.Proofs.Expression.Grammar
import DecisionTables.Proofs.Expression.Soundness
import DecisionTables.Proofs.Expression.Completeness
import DecisionTables.Proofs.Expression.Printing
import DecisionTables.Proofs.Condition.Patterns
import DecisionTables.Proofs.Condition.Scalars
import DecisionTables.Proofs.Condition.Printing
import DecisionTables.Proofs.Table.Building
import DecisionTables.Proofs.Table.Derived
import DecisionTables.Proofs.Number.Order
import DecisionTables.Proofs.Table.Foremost
import DecisionTables.Proofs.Table.Policies
import DecisionTables.Proofs.Text.ByteOrder
import DecisionTables.Proofs.Table.OutputOrder
import DecisionTables.Proofs.Table.Reordering
import DecisionTables.Proofs.Json.Strings
import DecisionTables.Proofs.Config.RoundTrip
import DecisionTables.Proofs.Json.Places
import DecisionTables.Proofs.Record.Lookup
import DecisionTables.Proofs.Table.Footprint
import DecisionTables.Proofs.Condition.Expressions
import DecisionTables.Proofs.Table.Resolution
import DecisionTables.Proofs.Table.Rearrangement
import DecisionTables.Proofs.Config.Entry
import DecisionTables.Proofs.Expression.Errors
import DecisionTables.Proofs.Config.Faults
import DecisionTables.Proofs.Condition.Operands
import DecisionTables.Proofs.Condition.Laws
import DecisionTables.Proofs.Record.RoundTrip
import DecisionTables.Proofs.Table.Additions
import DecisionTables.Proofs.Table.Rendering
import DecisionTables.Proofs.Table.Agreement
import DecisionTables.Proofs.Value.Comparison
import DecisionTables.Proofs.Table.Generation
import DecisionTables.Proofs.Table.Aggregation
import DecisionTables.Proofs.Table.Priority
import DecisionTables.Proofs.Number.Integers
import DecisionTables.Proofs.Calendar.Days
import DecisionTables.Proofs.Calendar.Milliseconds
import DecisionTables.Proofs.Calendar.Digits
import DecisionTables.Proofs.Calendar.Forms
import DecisionTables.Proofs.Calendar.Printing
import DecisionTables.Proofs.Value.Readings
import DecisionTables.Proofs.Value.Dates
import DecisionTables.Proofs.Value.Ordering
import DecisionTables.Proofs.Expression.Failures
import DecisionTables.Proofs.Record.Keys
import DecisionTables.Proofs.Table.Declaration
import DecisionTables.Proofs.Table.Identification
import DecisionTables.Proofs.Condition.OwnText
import DecisionTables.Proofs.Expression.Rewriting
import DecisionTables.Proofs.Text.Offsets
