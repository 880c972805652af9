import PackageAudit.Analysis.Check
import PackageAudit.Analysis.Run
import PackageAudit.Archive.Basic
import PackageAudit.Archive.Crc32
import PackageAudit.Archive.Error
import PackageAudit.Archive.Inflate
import PackageAudit.Archive.Zip
import PackageAudit.Ascending
import PackageAudit.ClassFile.Annotations
import PackageAudit.ClassFile.Basic
import PackageAudit.ClassFile.ConstantPool
import PackageAudit.ClassFile.Decoder
import PackageAudit.ClassFile.Error
import PackageAudit.ClassFile.ModifiedUtf8
import PackageAudit.ClassRecord
import PackageAudit.CommandLine.Arguments
import PackageAudit.CommandLine.Output
import PackageAudit.CommandLine.Run
import PackageAudit.Configuration.Basic
import PackageAudit.Configuration.Document
import PackageAudit.Configuration.File
import PackageAudit.Configuration.Parse
import PackageAudit.Cycle
import PackageAudit.Descriptor
import PackageAudit.Files
import PackageAudit.Finding
import PackageAudit.Graph
import PackageAudit.Ignore
import PackageAudit.Inputs.Archive
import PackageAudit.Inputs.Build
import PackageAudit.Inputs.Contents
import PackageAudit.Inputs.Kind
import PackageAudit.Json
import PackageAudit.Location
import PackageAudit.Main
import PackageAudit.Model.Assemble
import PackageAudit.Model.Basic
import PackageAudit.PackageFilter
import PackageAudit.Path
import PackageAudit.Pattern
import PackageAudit.Report.Basic
import PackageAudit.Report.Json
import PackageAudit.Rules.Evaluation
import PackageAudit.Rules.Family
import PackageAudit.Rules.Relation
import PackageAudit.Rules.RuleSet
import PackageAudit.Signature
import PackageAudit.Source.Language
import PackageAudit.Source.LineCounts
import PackageAudit.Text.Case
import PackageAudit.Text.Cp437
import PackageAudit.Text.Digits
import PackageAudit.Text.Lines
import PackageAudit.Text.Quoted
import PackageAudit.Text.Utf16
import PackageAudit.Text.Utf8
import PackageAudit.Text.White
import PackageAudit.Toml.Reader
import PackageAudit.Toml.Scalar
import PackageAudit.Toml.Statement
import PackageAudit.Toml.Table
import PackageAudit.Toml.Text
import PackageAudit.Toml.Value
import PackageAudit.Usage
import PackageAudit.Proofs.Graph.Search
import PackageAudit.Proofs.Graph.Invariant
import PackageAudit.Proofs.Graph.Moves
import PackageAudit.Proofs.Graph.Components
import PackageAudit.Proofs.Graph.Bounds
import PackageAudit.Proofs.Ascending
import PackageAudit.Proofs.Model.Tables
import PackageAudit.Proofs.Model.Declarations
import PackageAudit.Proofs.Model.Assembly
import PackageAudit.Proofs.Model.Edges
import PackageAudit.Proofs.Usage
import PackageAudit.Proofs.Cycle.Scope
import PackageAudit.Proofs.Cycle.Report
import PackageAudit.Proofs.Rules.Patterns
import PackageAudit.Proofs.Rules.Judgements
import PackageAudit.Proofs.Rules.Evaluation
import PackageAudit.Proofs.Rules.Precedence
import PackageAudit.Proofs.Source.Counts
import PackageAudit.Proofs.Source.Lines
import PackageAudit.Proofs.Source.Lexer
import PackageAudit.Proofs.Source.Nesting
import PackageAudit.Proofs.Source.Classification
import PackageAudit.Proofs.Source.Composition
import PackageAudit.Proofs.Traversal
import PackageAudit.Proofs.ClassFile.ModifiedUtf8
import PackageAudit.Proofs.ClassFile.Reading
import PackageAudit.Proofs.ClassFile.Truncation
import PackageAudit.Proofs.ClassFile.Layout
import PackageAudit.Proofs.ClassFile.Encoding
import PackageAudit.Proofs.ClassFile.Inversion
import PackageAudit.Proofs.ClassFile.Nesting
import PackageAudit.Proofs.ClassFile.Slots
import PackageAudit.Proofs.Signature.Grammar
import PackageAudit.Proofs.Signature.Reading
import PackageAudit.Proofs.Signature.Types
import PackageAudit.Proofs.Signature.Derivations
import PackageAudit.Proofs.Descriptor
import PackageAudit.Proofs.Mentions
import PackageAudit.Proofs.Analysis.Findings
import PackageAudit.Proofs.Ignore
import PackageAudit.Proofs.Rules.Sealing
import PackageAudit.Proofs.Rules.Alike
import PackageAudit.Proofs.Analysis.Growth
import PackageAudit.Proofs.Model.Growth
import PackageAudit.Proofs.Model.Invariance
import PackageAudit.Proofs.Model.Merging
import PackageAudit.Proofs.Model.Lines
import PackageAudit.Proofs.Cycle.Projection
import PackageAudit.Proofs.Rules.SealedRules
import PackageAudit.Proofs.Rules.Unused
import PackageAudit.Proofs.Rules.Closure
import PackageAudit.Proofs.Rules.Duality
import PackageAudit.Proofs.Screening
import PackageAudit.Proofs.Inputs.Archives
import PackageAudit.Proofs.Inputs.Kinds
import PackageAudit.Proofs.Inputs.Packing
import PackageAudit.Proofs.Configuration.Places
import PackageAudit.Proofs.Configuration.Loading
import PackageAudit.Proofs.Rules.Family
import PackageAudit.Proofs.Model.Capacity
