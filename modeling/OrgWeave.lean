import OrgWeave.Main
import OrgWeave.Org.Reading
import OrgWeave.Proofs.Document.Takers
import OrgWeave.Proofs.Document.Tiling
import OrgWeave.Proofs.Document.Grammar
import OrgWeave.Proofs.Closure.Order
import OrgWeave.Proofs.Closure.Ceiling
import OrgWeave.Proofs.Graph.Places
import OrgWeave.Proofs.Weave.Bodies
import OrgWeave.Proofs.Weave.Answer
import OrgWeave.Proofs.Weave.Nesting
import OrgWeave.Proofs.Weave.Ceilings
import OrgWeave.Proofs.Weave.Returns
import OrgWeave.Proofs.Run.Faults
import OrgWeave.Proofs.Document.Kinds
import OrgWeave.Proofs.Graph.Lines
import OrgWeave.Proofs.Graph.Meaning
import OrgWeave.Proofs.Graph.Duplicates
import OrgWeave.Proofs.Graph.Boundaries
import OrgWeave.Proofs.Disk.Writing
import OrgWeave.Proofs.Run.Files
import OrgWeave.Proofs.Weave.Agreement
import OrgWeave.Proofs.Graph.Spans
import OrgWeave.Proofs.Closure.Records
import OrgWeave.Proofs.Graph.Composition
import OrgWeave.Proofs.Weave.Literals
import OrgWeave.Proofs.Weave.Aggregates
import OrgWeave.Proofs.Run.Sources
import OrgWeave.Proofs.Params.Mentions
import OrgWeave.Proofs.Params.Grammar
import OrgWeave.Proofs.Params.Writing
import OrgWeave.Proofs.Params.Keys
import OrgWeave.Proofs.Request.Checks
import OrgWeave.Proofs.Request.ErrorStatus
import OrgWeave.Proofs.Weave.Indentation
import OrgWeave.Proofs.Document.Headers
import OrgWeave.Proofs.Weave.Templates
import OrgWeave.Proofs.Run.Causes
import OrgWeave.Proofs.Graph.Names
import OrgWeave.Proofs.Run.ErrorLines
import OrgWeave.Proofs.Closure.Descent
import OrgWeave.Proofs.Closure.Repetition
import OrgWeave.Proofs.Graph.FinalNewline
import OrgWeave.Proofs.Graph.Targets
import OrgWeave.Proofs.Weave.Sharing
import OrgWeave.Proofs.Corpus.Positions
import OrgWeave.Proofs.Text.Sorting
import OrgWeave.Proofs.Closure.Undeclared
import OrgWeave.Proofs.Params.Building
import OrgWeave.Proofs.Weave.Markers
import OrgWeave.Proofs.Document.Slices
import OrgWeave.Proofs.Document.Windows
