import QuantitySurvey.Main
import QuantitySurvey.Audit.FileLog
import QuantitySurvey.Disk.Memory
import QuantitySurvey.Proofs.Calculation.Batch
import QuantitySurvey.Proofs.Calculation.Replacement
import QuantitySurvey.Proofs.Calculation.Custody
import QuantitySurvey.Proofs.Calculation.Correspondence
import QuantitySurvey.Proofs.Calculation.Notes
import QuantitySurvey.Proofs.Calculation.Abandonment
import QuantitySurvey.Proofs.Formula.Derivation
import QuantitySurvey.Proofs.Formula.Soundness
import QuantitySurvey.Proofs.Formula.Completeness
import QuantitySurvey.Proofs.Json.Leaves
import QuantitySurvey.Proofs.Json.RoundTrip
import QuantitySurvey.Proofs.Document.Members
import QuantitySurvey.Proofs.Document.Parts
import QuantitySurvey.Proofs.Document.Projects
import QuantitySurvey.Proofs.Project.Calculating
import QuantitySurvey.Proofs.Disk.Reading
import QuantitySurvey.Proofs.Disk.Siblings
import QuantitySurvey.Proofs.Disk.Orderly
import QuantitySurvey.Proofs.Project.Saving
import QuantitySurvey.Proofs.Program.Reloading
import QuantitySurvey.Proofs.Instant.Calendar
import QuantitySurvey.Proofs.Instant.RoundTrip
import QuantitySurvey.Proofs.Calculation.Course
import QuantitySurvey.Proofs.Calculation.Smooth
import QuantitySurvey.Proofs.Work.Stores
import QuantitySurvey.Proofs.Calculation.Agreement
import QuantitySurvey.Proofs.Project.Framing
import QuantitySurvey.Proofs.Project.Locking
import QuantitySurvey.Proofs.Program.Framing
import QuantitySurvey.Proofs.Formula.Names
import QuantitySurvey.Proofs.Calculation.Replay
import QuantitySurvey.Proofs.Formula.Canonical
import QuantitySurvey.Proofs.Decimal.Unsigned
import QuantitySurvey.Proofs.Formula.Spelling
import QuantitySurvey.Proofs.Formula.Layout
import QuantitySurvey.Proofs.Formula.CanonicalText
import QuantitySurvey.Proofs.Formula.Nodes
import QuantitySurvey.Proofs.Formula.Trace
import QuantitySurvey.Proofs.Json.Extension
import QuantitySurvey.Proofs.Audit.Lines
import QuantitySurvey.Proofs.Audit.Tail
import QuantitySurvey.Proofs.Json.Compact
import QuantitySurvey.Proofs.Audit.Appending
import QuantitySurvey.Proofs.Audit.Numbering
import QuantitySurvey.Proofs.Audit.FileLog
import QuantitySurvey.Proofs.Audit.Refinement
import QuantitySurvey.Proofs.Calculation.ErrorTrail
import QuantitySurvey.Proofs.Formula.WellFormed
import QuantitySurvey.Proofs.Formula.RunFailures
import QuantitySurvey.Proofs.Document.RoundTrip
import QuantitySurvey.Proofs.Project.Hazards
import QuantitySurvey.Proofs.Project.Interruption
import QuantitySurvey.Proofs.Formula.Dependence
import QuantitySurvey.Proofs.Parameter.Validation
import QuantitySurvey.Proofs.Formula.Resolution
import QuantitySurvey.Proofs.Calculation.Results
import QuantitySurvey.Proofs.Audit.Ascending
import QuantitySurvey.Proofs.Project.Consistency
import QuantitySurvey.Proofs.Program.Consistency
import QuantitySurvey.Proofs.Formula.Truncation
import QuantitySurvey.Proofs.Formula.FailingNode
import QuantitySurvey.Proofs.Formula.FixedPoint
import QuantitySurvey.Proofs.Formula.Lexemes
import QuantitySurvey.Proofs.Formula.Tokenizing
import QuantitySurvey.Proofs.Formula.Screening
import QuantitySurvey.Proofs.Audit.Backwards
import QuantitySurvey.Proofs.Work.Operations
import QuantitySurvey.Proofs.Decimal.Nonnegative
import QuantitySurvey.Proofs.Formula.Bounds
import QuantitySurvey.Proofs.Formula.Recursion
import QuantitySurvey.Proofs.Decimal.Order
import QuantitySurvey.Proofs.Parameter.Violations
import QuantitySurvey.Proofs.Project.Versions
import QuantitySurvey.Proofs.Decimal.Numerals
import QuantitySurvey.Proofs.Measure.Units
import QuantitySurvey.Proofs.Measure.Dimensions
import QuantitySurvey.Proofs.Measure.Written
import QuantitySurvey.Proofs.Lock.Acquisition
import QuantitySurvey.Proofs.Lock.Takeover
import QuantitySurvey.Proofs.Lock.Exclusion
