import Flowgraph.Cache.Basic
import Flowgraph.Cache.Key

/-!
# Analyses through a cache

An analysis is served from the cache if that holds one of the very same files, and is asked for and
kept otherwise.
-/

namespace Flowgraph

/-- What an analysis needs of a cache. A cache that fails has no entry, and stays as it is. -/
structure AnalysisCache (σ : Type) where
  find? : σ → String → Option CachedAnalysis
  insert : σ → String → CachedAnalysis → σ

/-- The cache in memory. -/
def MemoryCache.asCache : AnalysisCache MemoryCache where
  find? entries key := entries[key]?
  insert entries key a := Std.ExtTreeMap.insert entries key a

namespace AnalysisCache

/-- The cached graph of a set of files. An entry for other files does not count, even under the same
key. -/
def hit? (cache : AnalysisCache σ) (entries : σ) (files : Contents) : Option Graph :=
  match cache.find? entries (Cache.key files) with
  | some a => if a.contents = files then some a.graph else none
  | none => none

/-- A cache after an analysis, whose graph comes from the cache or from the classifier. -/
structure Outcome (σ ε : Type) where
  entries : σ
  result : Except ε AnalysisResult

/-- Analyzes a set of files, asking the classifier where the cache has no answer. Only what the
classifier has answered is kept. -/
def analyze (cache : AnalysisCache σ) (ask : Contents → Except ε Graph) (entries : σ)
    (files : Contents) : Outcome σ ε :=
  match cache.hit? entries files with
  | some graph => ⟨entries, .ok ⟨graph, true⟩⟩
  | none =>
    match ask files with
    | .error e => ⟨entries, .error e⟩
    | .ok graph => ⟨cache.insert entries (Cache.key files) ⟨graph, files⟩, .ok ⟨graph, false⟩⟩

end AnalysisCache

end Flowgraph
