import QuerySteps.Recorded
import QuerySteps.Pipeline.Json
import QuerySteps.Pipeline.File
import QuerySteps.Expr.Json
import QuerySteps.Query.Compile
import QuerySteps.Query.Step
import QuerySteps.Settings
import QuerySteps.Result.Temporal
import QuerySteps.Result.Table
import QuerySteps.Store.Database
import QuerySteps.CommandLine.Commands
import QuerySteps.Main
import QuerySteps.Proofs.Formula.Precedence
import QuerySteps.Proofs.Formula.RoundTrip
import QuerySteps.Proofs.Query.NameScope
import QuerySteps.Proofs.Query.NestingPolicy
import QuerySteps.Proofs.Query.LevelInvariant
import QuerySteps.Proofs.Query.Conservation
import QuerySteps.Proofs.Query.Depth
import QuerySteps.Proofs.Formula.Expression
import QuerySteps.Proofs.Query.SchemaCalls
import QuerySteps.Proofs.Decimal.Numerals
import QuerySteps.Proofs.Json.Leaves
import QuerySteps.Proofs.Query.Outline
import QuerySteps.Proofs.Query.CallCount
import QuerySteps.Proofs.Query.Conditions
import QuerySteps.Proofs.Query.SummaryColumns
import QuerySteps.Proofs.Query.DerivedColumns
import QuerySteps.Proofs.Json.RoundTrip
import QuerySteps.Proofs.Json.Records
import QuerySteps.Proofs.Json.Expressions
import QuerySteps.Proofs.Json.ReadValues
import QuerySteps.Proofs.Json.Rewriting
import QuerySteps.Proofs.Json.Pipelines
import QuerySteps.Proofs.Json.NodeKinds
import QuerySteps.Proofs.Json.Reordering
import QuerySteps.Proofs.Json.Numbers
import QuerySteps.Proofs.Pipeline.IdleSteps
import QuerySteps.Proofs.Formula.ViablePrefix
import QuerySteps.Proofs.Formula.AbsentOperators
import QuerySteps.Proofs.Formula.WordOperators
import QuerySteps.Proofs.Formula.Signs
import QuerySteps.Proofs.Query.JoinOutputs
import QuerySteps.Proofs.Formula.Respaced
import QuerySteps.Proofs.Formula.WhiteSpace
import QuerySteps.Proofs.Calendar.DayCount
import QuerySteps.Proofs.Decimal.Integers
import QuerySteps.Proofs.Calendar.Seconds
import QuerySteps.Proofs.Calendar.Range
import QuerySteps.Proofs.Result.TemporalCells
import QuerySteps.Proofs.Calendar.Written
import QuerySteps.Proofs.Calendar.Formats
import QuerySteps.Proofs.Formula.QuotedPieces
import QuerySteps.Proofs.Formula.FailurePlaces
import QuerySteps.Proofs.CommandLine.Alignment
import QuerySteps.Proofs.Query.QuotedNames
import QuerySteps.Proofs.Formula.Configuration
import QuerySteps.Proofs.Formula.Descent
