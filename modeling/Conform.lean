import Conform.Call.Binding
import Conform.ClassTable
import Conform.Constraint.Basic
import Conform.Declaration.Basic
import Conform.Declaration.Parser
import Conform.Declaration.Token
import Conform.Guard.Basic
import Conform.Guard.Session
import Conform.Inspection.Basic
import Conform.Inspection.Trail
import Conform.Inspection.Violation
import Conform.Json.Reader
import Conform.Number.FloatText
import Conform.Number.Nearest
import Conform.Pattern.Bracket
import Conform.Pattern.Escape
import Conform.Pattern.Footprint
import Conform.Pattern.Normal
import Conform.Pattern.Program
import Conform.Pattern.Reader
import Conform.Pattern.Tree
import Conform.Proofs.Call.Arguments
import Conform.Proofs.Call.Binding
import Conform.Proofs.Call.Repetition
import Conform.Proofs.ClassTable.Family
import Conform.Proofs.ClassTable.Registration
import Conform.Proofs.Declaration.Blame
import Conform.Proofs.Declaration.Boundaries
import Conform.Proofs.Declaration.ClassNames
import Conform.Proofs.Declaration.Completeness
import Conform.Proofs.Declaration.ErrorPlaces
import Conform.Proofs.Declaration.Grammar
import Conform.Proofs.Declaration.Layout
import Conform.Proofs.Declaration.Lexing
import Conform.Proofs.Declaration.Progress
import Conform.Proofs.Declaration.Recogniser
import Conform.Proofs.Declaration.RoundTrip
import Conform.Proofs.Declaration.Soundness
import Conform.Proofs.Guard.Calls
import Conform.Proofs.Guard.FirstNeed
import Conform.Proofs.Guard.RestParameters
import Conform.Proofs.Guard.Strictness
import Conform.Proofs.Inspection.Acceptance
import Conform.Proofs.Inspection.Announcement
import Conform.Proofs.Inspection.Evidence
import Conform.Proofs.Inspection.Fallback
import Conform.Proofs.Inspection.OneByOne
import Conform.Proofs.Inspection.Report
import Conform.Proofs.Inspection.SharedLocation
import Conform.Proofs.Inspection.Tuples
import Conform.Proofs.Schema.Alternatives
import Conform.Proofs.Schema.Canonical
import Conform.Proofs.Schema.Exact
import Conform.Proofs.Schema.Existence
import Conform.Proofs.Schema.OfDeclaration
import Conform.Proofs.Schema.Plain
import Conform.Proofs.Schema.Shape
import Conform.Proofs.Schema.WellFormed
import Conform.Proofs.Union.Equality
import Conform.Proofs.Union.Inclusion
import Conform.Proofs.Union.Join
import Conform.Proofs.Union.Laws
import Conform.Proofs.Union.Narrowing
import Conform.Proofs.Union.Rules
import Conform.Proofs.Union.Tuples
import Conform.Proofs.Value.Build
import Conform.Proofs.Value.Comparison
import Conform.Proofs.Value.Equivalence
import Conform.Proofs.Value.Exact
import Conform.Proofs.Value.Members
import Conform.Proofs.Value.Order
import Conform.Proofs.Value.Range
import Conform.Proofs.Value.Unambiguous
import Conform.Schema.Basic
import Conform.Schema.Join
import Conform.Schema.OfDeclaration
import Conform.Settings.Json
import Conform.Settings.Yaml
import Conform.Text.Alphabetic
import Conform.Text.CaseFold
import Conform.Text.CharClass
import Conform.Text.CharRanges
import Conform.Text.Word
import Conform.TypeTag
import Conform.Value.Basic
import Conform.Value.Comparison
import Conform.Value.OfJson
import Conform.Value.Printer
import Conform.Yaml.Cursor
import Conform.Yaml.Mapping
import Conform.Yaml.Property
import Conform.Yaml.Scalar
import Conform.Yaml.TokenStream
