import FLang.Editor
import FLang.Limits.Fields
import FLang.Main
import FLang.Proofs.Completeness.Rules
import FLang.Proofs.Soundness.Programs
import FLang.Proofs.Completeness.Expressions
import FLang.Proofs.Completeness.Programs
import FLang.Proofs.Language
import FLang.Proofs.Lexing.Segments
import FLang.Proofs.Lexing.LongestMatch
import FLang.Proofs.Lexing.Strings
import FLang.Proofs.Lexing.Numbers
import FLang.Proofs.Naming.Meaning
import FLang.Proofs.Canonical.Words
import FLang.Proofs.Canonical.Printing
import FLang.Proofs.Canonical.Derivation
import FLang.Proofs.Canonical.Source
import FLang.Proofs.Canonical.Layout
import FLang.Proofs.RoundTrip
import FLang.Proofs.Scopes.Effects
import FLang.Proofs.Scopes.Evaluation
import FLang.Proofs.Scopes.Types
import FLang.Proofs.Scopes.Histories
import FLang.Proofs.Safety
import FLang.Proofs.Runs.Balance
import FLang.Proofs.Runs.Bounds
import FLang.Proofs.Runs.Noninterference
import FLang.Proofs.Runs.Reuse
import FLang.Proofs.Runs.Blocks
import FLang.Proofs.Runs.Moments
import FLang.Proofs.Runs.Recursion
import FLang.Proofs.Runs.Types
import FLang.Proofs.Runs.Choices
import FLang.Proofs.Structured.Semantics
import FLang.Proofs.Structured.Soundness
import FLang.Proofs.Structured.Completeness
import FLang.Proofs.Prefixes.Locality
import FLang.Proofs.Prefixes.Scanning
import FLang.Proofs.Prefixes.Viability.Expressions
import FLang.Proofs.Prefixes.Viability.Programs
import FLang.Proofs.Prefixes.FirstError
import FLang.Proofs.Prefixes.OnDemand
import FLang.Proofs.Scopes.Writes
import FLang.Proofs.Positions.Erasure
import FLang.Proofs.Positions.Runs
import FLang.Proofs.Decimal.Rounding
import FLang.Proofs.Decimal.Conversion
import FLang.Proofs.Decimal.Shortest
import FLang.Proofs.Decimal.Texts
import FLang.Proofs.Decimal.Digits
import FLang.Proofs.Literals
import FLang.Proofs.Casts
import FLang.Proofs.Integers
import FLang.Proofs.FrontEnd
import FLang.Proofs.Runs.Depth
import FLang.Proofs.Lexing.Capacities
import FLang.Proofs.FreeForm.Readers
import FLang.Proofs.FreeForm.Rules
import FLang.Proofs.Positions.Introductions
import FLang.Proofs.Runs.Division
import FLang.Proofs.Lexing.Characters
import FLang.Proofs.Lexing.Neighbours
import FLang.Proofs.Editor
import FLang.Proofs.Descent.Decisions
import FLang.Proofs.Descent.Termination
