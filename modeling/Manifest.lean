import Manifest.Json.Reader
import Manifest.DependencyGraph
import Manifest.Diagnostic.Json
import Manifest.Spec.Tree
import Manifest.Config.Equality
import Manifest.CommandLine
import Manifest.Main
import Manifest.Proofs.Outcome
import Manifest.Proofs.Template
import Manifest.Proofs.Interpolation.Reference
import Manifest.Proofs.Interpolation.Memo
import Manifest.Proofs.Interpolation.Prediction
import Manifest.Proofs.Config.Reader
import Manifest.Proofs.Config.Tree
import Manifest.Proofs.SafeRef
import Manifest.Proofs.Template.Separated
import Manifest.Proofs.Scalar
import Manifest.Proofs.ReferencePath
import Manifest.Proofs.Context
import Manifest.Proofs.Context.Texts
import Manifest.Proofs.Compiler.References
import Manifest.Proofs.Yaml
import Manifest.Proofs.SourceDocument
import Manifest.Proofs.Schema.Check
import Manifest.Proofs.Spec.Reader
import Manifest.Proofs.Compiler.Parsing
import Manifest.Proofs.DependencyGraph
import Manifest.Proofs.Dict
import Manifest.Proofs.Config.Consistent
import Manifest.Proofs.Layering
import Manifest.Proofs.Text.Split
import Manifest.Proofs.Slug
import Manifest.Proofs.Slug.Reader
import Manifest.Proofs.DependencyGraph.Search
import Manifest.Proofs.DependencyGraph.Startup
import Manifest.Proofs.Validation.Reports
import Manifest.Proofs.Config.Rewriting
import Manifest.Proofs.Interpolation.Frame
import Manifest.Proofs.Config.Equality
import Manifest.Proofs.Layering.Associative
import Manifest.Proofs.Compiler.Dependencies
import Manifest.Proofs.Interpolation.Final
import Manifest.Proofs.Interpolation.History
import Manifest.Proofs.Layering.Grouping
import Manifest.Proofs.Layering.Completion
import Manifest.Proofs.Compiler.Exclusive
import Manifest.Proofs.Compiler.Volumes
import Manifest.Proofs.Layering.Frame
import Manifest.Proofs.Compiler.Context
import Manifest.Proofs.Compiler.Account
import Manifest.Proofs.CommandLine.Tag
import Manifest.Proofs.Slug.Detection
import Manifest.Proofs.SafeRef.Label
import Manifest.Proofs.SafeRef.Identity
import Manifest.Proofs.Context.Hosts
import Manifest.Proofs.Interpolation.Hidden
import Manifest.Proofs.Normalization
import Manifest.Proofs.Command.Quoting
import Manifest.Proofs.Command.Separated
import Manifest.Proofs.Command.References
import Manifest.Proofs.Command.Expressions
import Manifest.Proofs.DependencyGraph.Circular
import Manifest.Proofs.Template.Lossless
import Manifest.Proofs.Compiler.Forwarding
import Manifest.Proofs.Interpolation.Circular
import Manifest.Proofs.Interpolation.Machine
import Manifest.Proofs.Layering.Joined
import Manifest.Proofs.Compiler.DefaultUrl
import Manifest.Proofs.Compiler.Paths
import Manifest.Proofs.ReferencePath.Grammar
import Manifest.Proofs.SafeRef.Friendly
import Manifest.Proofs.Compiler.Sources
import Manifest.Proofs.SourceDocument.Escaping
import Manifest.Proofs.SourceDocument.References
import Manifest.Proofs.Normalization.SingleReference
import Manifest.Proofs.Slug.Conversion
import Manifest.Proofs.SourceMap
import Manifest.Proofs.SourceMap.BlockStyle
import Manifest.Proofs.SourceMap.Inward
import Manifest.Proofs.Slug.Characters
import Manifest.Proofs.Schema.Suggestion
import Manifest.Proofs.Validation.Perspectives
import Manifest.Proofs.Command.Loops
