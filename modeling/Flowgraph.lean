import Flowgraph.CallGraph.Diff
import Flowgraph.Extract
import Flowgraph.Imports.File
import Flowgraph.Relevance
import Flowgraph.Graph.Patch
import Flowgraph.Graph.CrossFile
import Flowgraph.Graph.Classification
import Flowgraph.Resolver.Basic
import Flowgraph.Store.Basic
import Flowgraph.Graph.Json
import Flowgraph.Reply
import Flowgraph.Deadlines
import Flowgraph.Batcher
import Flowgraph.Cache.Key
import Flowgraph.Cache.Directory
import Flowgraph.Change
import Flowgraph.Source
import Flowgraph.Engine.Session
import Flowgraph.Config
import Flowgraph.SourceFiles
import Flowgraph.Main
import Flowgraph.Proofs.Batcher
import Flowgraph.Proofs.Resolver.Confluence
import Flowgraph.Proofs.Store.InStep
import Flowgraph.Proofs.Store.Batch
import Flowgraph.Proofs.Store.Drawing
import Flowgraph.Proofs.Store.Backing
import Flowgraph.Proofs.Store.Saving
import Flowgraph.Proofs.Engine.Deletion
import Flowgraph.Proofs.Engine.Completion
import Flowgraph.Proofs.Graph.Altering
import Flowgraph.Proofs.Store.WellFormed
import Flowgraph.Proofs.Graph.Reports
import Flowgraph.Proofs.Store.Reports
import Flowgraph.Proofs.Store.Classification
import Flowgraph.Proofs.Store.Flags
import Flowgraph.Proofs.Graph.Trades
import Flowgraph.Proofs.Store.Updating
import Flowgraph.Proofs.Store.Unchanged
import Flowgraph.Proofs.Store.Pending
import Flowgraph.Proofs.Engine.Deeds
import Flowgraph.Proofs.Engine.Requests
import Flowgraph.Proofs.Engine.Analyses
import Flowgraph.Proofs.Engine.Highlights
import Flowgraph.Proofs.Engine.Publishing
import Flowgraph.Proofs.Resolver.Justification
import Flowgraph.Proofs.Cache.Analysis
import Flowgraph.Proofs.Engine.Clock
import Flowgraph.Proofs.Engine.Debounce
import Flowgraph.Proofs.Json.RoundTrip
import Flowgraph.Proofs.Cache.Directory
import Flowgraph.Proofs.Graph.Rebuilding
import Flowgraph.Proofs.Graph.Splicing
import Flowgraph.Proofs.Resolver.Affected
import Flowgraph.Proofs.Resolver.Undoing
import Flowgraph.Proofs.Store.Again
import Flowgraph.Proofs.Graph.Merging
import Flowgraph.Proofs.Syntax.Walk
import Flowgraph.Proofs.Call.Stripping
import Flowgraph.Proofs.Imports.File
import Flowgraph.Proofs.Imports.UseTree.Reading
import Flowgraph.Proofs.Resolver.Relative
import Flowgraph.Proofs.Scan.Signatures
import Flowgraph.Proofs.Scan.Nesting
import Flowgraph.Proofs.Scan.Indentation
import Flowgraph.Proofs.Cache.Key
import Flowgraph.Proofs.Deadlines.Expiry
import Flowgraph.Proofs.Engine.Waking
import Flowgraph.Proofs.Path
import Flowgraph.Proofs.Resolver.Stability
import Flowgraph.Proofs.Graph.Allocation
import Flowgraph.Proofs.Scan.Checked
