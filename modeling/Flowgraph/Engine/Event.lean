import Flowgraph.Analysis
import Flowgraph.Graph.Classification

/-!
# Events of the engine

What the engine tells those who render the graph, and what it asks of a classifier.
-/

namespace Flowgraph

/-- The highlight of a file that is being edited. -/
inductive EditState where
  | unchanged
  | changed
  | active
deriving DecidableEq, Repr

inductive EngineEvent where
  | graphPatched (path : String) (patch : Patch) (graph : Graph)
  /-- The highlight of a file, with the functions that its edits have touched. -/
  | fileState (path : String) (state : EditState) (functions : List String)
  | analysisStarted (reason : String) (files : Nat)
  | analysisCompleted (nodes edges : Nat) (fromCache : Bool)
  | analysisFailed (reason error : String)
  | nodesClassified (ids : List String)
deriving DecidableEq, Repr

/-! ## Classifiers -/

/-- A request for the graph of a set of files, with a hint at the framework they use. -/
structure AnalysisRequest where
  files : Contents
  framework : Option String

def AnalysisRequest.ofFiles (files : Contents) : AnalysisRequest := ⟨files, frameworkOf files⟩

/-- Names nodes and analyzes files, or fails with a message. -/
structure Classifier where
  classify : ClassificationRequest → Except String (List Classification)
  analyze : AnalysisRequest → Except String Graph

/-- The classifier that names nothing, and analyzes files by their text alone. -/
def Classifier.textual [Parsers] : Classifier where
  classify _ := .ok []
  analyze request := (localAnalysis request.files).mapError ImportError.message

end Flowgraph
