import PageCompiler.Main
import PageCompiler.Proofs.Analysis.Extension
import PageCompiler.Proofs.Artifact.Declarations
import PageCompiler.Proofs.Artifact.StateKeys
import PageCompiler.Proofs.Block.Progress
import PageCompiler.Proofs.CommandLine.Contract
import PageCompiler.Proofs.Compile.Enclosure
import PageCompiler.Proofs.Compile.Mending
import PageCompiler.Proofs.Document.Fault
import PageCompiler.Proofs.Document.Insertion
import PageCompiler.Proofs.Fallback.Accepted
import PageCompiler.Proofs.Fallback.Budget
import PageCompiler.Proofs.Generation.Isolation
import PageCompiler.Proofs.Issue.Tracking
import PageCompiler.Proofs.Pattern.Tabs
import PageCompiler.Proofs.Policy.Escaping
import PageCompiler.Proofs.Policy.RuntimeReferences
import PageCompiler.Proofs.Policy.Stable
import PageCompiler.Proofs.Server.Accounting
import PageCompiler.Proofs.Server.Aggregate
