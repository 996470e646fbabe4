import Flowgraph.Cache.Analysis
import Flowgraph.Proofs.History
import Mathlib.Data.List.Induction

/-!
# Analyses from a cache in memory

A cache at work on one inquiry after another. An analysis is served from it exactly if the last graph
that has been kept under the key was obtained for the very same files, so that no two sets of files
with one key are mixed up.
-/

namespace Flowgraph

namespace AnalysisCache

variable {σ ε : Type} {cache : AnalysisCache σ} {ask : Contents → Except ε Graph} {entries : σ}
  {files : Contents} {graph : Graph}

/-! ## One analysis -/

/-- An analysis is served from the cache, fails with the classifier, or is obtained from it and kept. -/
theorem analyze_cases (cache : AnalysisCache σ) (ask : Contents → Except ε Graph) (entries : σ)
    (files : Contents) :
    (∃ graph, cache.hit? entries files = some graph ∧
      cache.analyze ask entries files = ⟨entries, .ok ⟨graph, true⟩⟩) ∨
    (cache.hit? entries files = none ∧ ∃ error, ask files = .error error ∧
      cache.analyze ask entries files = ⟨entries, .error error⟩) ∨
    (cache.hit? entries files = none ∧ ∃ graph, ask files = .ok graph ∧
      cache.analyze ask entries files =
        ⟨cache.insert entries (Cache.key files) ⟨graph, files⟩, .ok ⟨graph, false⟩⟩) := by
  unfold analyze
  cases hhit : cache.hit? entries files with
  | some graph => exact .inl ⟨graph, rfl, rfl⟩
  | none =>
    cases hask : ask files with
    | error error => exact .inr (.inl ⟨rfl, error, rfl, rfl⟩)
    | ok graph => exact .inr (.inr ⟨rfl, graph, rfl, rfl⟩)

theorem hit?_eq_some :
    cache.hit? entries files = some graph ↔
      cache.find? entries (Cache.key files) = some ⟨graph, files⟩ := by
  unfold hit?
  cases cache.find? entries (Cache.key files) with
  | none => simp
  | some a =>
    obtain ⟨kept, contents⟩ := a
    simp only [Option.ite_none_right_eq_some, Option.some.injEq, CachedAnalysis.mk.injEq]
    exact and_comm

theorem result_eq_cached_iff_hit :
    (cache.analyze ask entries files).result = .ok ⟨graph, true⟩ ↔
      cache.hit? entries files = some graph := by
  rcases analyze_cases cache ask entries files with
    ⟨served, hhit, heq⟩ | ⟨hhit, error, -, heq⟩ | ⟨hhit, obtained, -, heq⟩
  · simp [heq, hhit]
  · simp [heq, hhit]
  · simp [heq, hhit]

/-- A classifier that fails leaves the cache as it is. -/
theorem entries_of_ask_error {error : ε} (h : ask files = .error error) :
    (cache.analyze ask entries files).entries = entries := by
  rcases analyze_cases cache ask entries files with
    ⟨served, -, heq⟩ | ⟨-, error, -, heq⟩ | ⟨-, obtained, hok, -⟩
  · rw [heq]
  · rw [heq]
  · rw [h] at hok
    cases hok

/-! ## One analysis after another -/

/-- A set of files to be analyzed, with the answer that the classifier gives if it is asked. -/
structure Inquiry (ε : Type) where
  files : Contents
  answer : Except ε Graph

/-- An inquiry with its result. -/
structure Served (ε : Type) extends Inquiry ε where
  result : Except ε AnalysisResult

/-- A cache with what has been served so far. -/
structure Service (σ ε : Type) where
  entries : σ
  log : List (Served ε)

namespace Service

def serve (cache : AnalysisCache σ) (s : Service σ ε) (q : Inquiry ε) : Service σ ε :=
  let outcome := cache.analyze (fun _ => q.answer) s.entries q.files
  ⟨outcome.entries, s.log ++ [⟨q, outcome.result⟩]⟩

def serveAll (cache : AnalysisCache σ) (s : Service σ ε) (qs : List (Inquiry ε)) : Service σ ε :=
  qs.foldl (serve cache) s

end Service

namespace Served

/-- The classifier has been asked, and has come to the graph of the files. -/
def Obtains (files : Contents) (graph : Graph) (a : Served ε) : Prop :=
  a.files = files ∧ a.answer = .ok graph ∧ a.result = .ok ⟨graph, false⟩

/-- A graph has been obtained that is kept under the key. -/
def KeptUnder (key : String) (a : Served ε) : Prop :=
  ∃ files graph, Cache.key files = key ∧ a.Obtains files graph

theorem not_obtains_of_result {a : Served ε} (h : ∀ graph, a.result ≠ .ok ⟨graph, false⟩) :
    ¬ a.Obtains files graph :=
  fun hobtains => h graph hobtains.2.2

theorem not_keptUnder_of_result {a : Served ε} {key : String}
    (h : ∀ graph, a.result ≠ .ok ⟨graph, false⟩) : ¬ a.KeptUnder key := by
  rintro ⟨files, graph, -, hobtains⟩
  exact not_obtains_of_result h hobtains

end Served

open Service Served

theorem serve_of_miss (s : Service σ ε) (q : Inquiry ε) (hmiss : cache.hit? s.entries q.files = none)
    (hanswer : q.answer = .ok graph) :
    serve cache s q = ⟨cache.insert s.entries (Cache.key q.files) ⟨graph, q.files⟩,
      s.log ++ [⟨q, .ok ⟨graph, false⟩⟩]⟩ := by
  simp only [serve, analyze, hmiss, hanswer]

theorem map_log_serveAll (s : Service σ ε) (qs : List (Inquiry ε)) :
    (serveAll cache s qs).log.map Served.toInquiry = s.log.map Served.toInquiry ++ qs := by
  induction qs generalizing s with
  | nil => simp [serveAll]
  | cons q qs ih =>
    have hrest := ih (serve cache s q)
    simp only [serve, List.map_append, List.map_cons, List.map_nil, List.append_assoc,
      List.singleton_append] at hrest
    exact hrest

/-- What stands under a key is the last graph that has been kept under it, with its own files. -/
theorem find?_serveAll (qs : List (Inquiry ε)) {key : String} {a : CachedAnalysis} :
    MemoryCache.asCache.find? (serveAll MemoryCache.asCache ⟨∅, []⟩ qs).entries key = some a ↔
      Cache.key a.contents = key ∧ Since (Obtains a.contents a.graph) (KeptUnder key)
        (serveAll MemoryCache.asCache ⟨∅, []⟩ qs).log := by
  induction qs using List.reverseRecOn with
  | nil =>
    change (∅ : MemoryCache)[key]? = some a ↔ _
    simp [serveAll, not_since_nil]
  | append_singleton qs q ih =>
    have hlast : serveAll MemoryCache.asCache ⟨∅, []⟩ (qs ++ [q]) =
        serve MemoryCache.asCache (serveAll MemoryCache.asCache ⟨∅, []⟩ qs) q := by
      simp [serveAll]
    rw [hlast]
    generalize serveAll MemoryCache.asCache ⟨∅, []⟩ qs = s at ih
    -- Where no graph is obtained, neither the cache nor the last graph under a key is another one.
    have hsame {result : Except ε AnalysisResult} (hresult : ∀ graph, result ≠ .ok ⟨graph, false⟩) :
        MemoryCache.asCache.find? s.entries key = some a ↔ Cache.key a.contents = key ∧
          Since (Obtains a.contents a.graph) (KeptUnder key) (s.log ++ [⟨q, result⟩]) := by
      rw [since_append_singleton, ih]
      simp [not_obtains_of_result (a := ⟨q, result⟩) hresult,
        not_keptUnder_of_result (a := ⟨q, result⟩) hresult]
    unfold serve
    rcases analyze_cases MemoryCache.asCache (fun _ => q.answer) s.entries q.files with
      ⟨served, -, heq⟩ | ⟨-, error, -, heq⟩ | ⟨-, obtained, hanswer, heq⟩
    · rw [heq]
      exact hsame (by simp)
    · rw [heq]
      exact hsame (by simp)
    · rw [heq]
      have hobtains (contents : Contents) (kept : Graph) :
          Obtains contents kept (⟨q, .ok ⟨obtained, false⟩⟩ : Served ε) ↔
            contents = q.files ∧ kept = obtained := by
        simp only [Obtains, hanswer, Except.ok.injEq, AnalysisResult.mk.injEq, and_true, and_self]
        exact and_congr eq_comm eq_comm
      have hkept : KeptUnder key (⟨q, .ok ⟨obtained, false⟩⟩ : Served ε) ↔
          Cache.key q.files = key := by
        simp [KeptUnder, hobtains]
      obtain ⟨kept, contents⟩ := a
      change (s.entries.insert (Cache.key q.files) ⟨obtained, q.files⟩)[key]? = some ⟨kept, contents⟩ ↔ _
      rw [since_append_singleton, hobtains, hkept, Std.ExtTreeMap.getElem?_insert]
      split
      next hkey =>
        -- The new graph has taken the place of any other one under the key.
        obtain rfl : Cache.key q.files = key := Std.LawfulEqCmp.eq_of_compare hkey
        simp only [Option.some.injEq, CachedAnalysis.mk.injEq, not_true_eq_false, and_false, or_false]
        constructor
        · rintro ⟨rfl, rfl⟩
          exact ⟨rfl, rfl, rfl⟩
        · rintro ⟨-, rfl, rfl⟩
          exact ⟨rfl, rfl⟩
      next hkey =>
        have hne : Cache.key q.files ≠ key := fun heq => hkey (heq ▸ Std.ReflCmp.compare_self)
        refine Iff.trans ih (and_congr_right fun hcontents => ?_)
        rw [and_iff_left hne, or_iff_right]
        rintro ⟨rfl, -⟩
        exact hne hcontents

/-- An analysis comes from the cache exactly if the last graph that has been kept under the key of its
files was obtained from the classifier for these files, and it is that graph. A classifier that fails
leaves the cache as it is. -/
theorem result_eq_cached_iff (qs : List (Inquiry ε)) (q : Inquiry ε) (graph : Graph) :
    let s := serveAll MemoryCache.asCache ⟨∅, []⟩ qs
    let outcome := MemoryCache.asCache.analyze (fun _ => q.answer) s.entries q.files
    s.log.map Served.toInquiry = qs ∧
      (outcome.result = .ok ⟨graph, true⟩ ↔
        Since (Obtains q.files graph) (KeptUnder (Cache.key q.files)) s.log) ∧
      ∀ error, q.answer = .error error → outcome.entries = s.entries := by
  intro s outcome
  refine ⟨map_log_serveAll ⟨∅, []⟩ qs, ?_, fun error herror => entries_of_ask_error herror⟩
  rw [result_eq_cached_iff_hit, hit?_eq_some, find?_serveAll]
  simp [s]

/-- Two sets of files under one key are two analyses for the classifier. -/
theorem log_serveAll_of_key_eq {first second : Contents} (hne : first ≠ second)
    (hkey : Cache.key first = Cache.key second) (g g' : Graph) :
    (serveAll MemoryCache.asCache ⟨∅, []⟩
      ([⟨first, .ok g⟩, ⟨second, .ok g'⟩] : List (Inquiry ε))).log =
      [⟨⟨first, .ok g⟩, .ok ⟨g, false⟩⟩, ⟨⟨second, .ok g'⟩, .ok ⟨g', false⟩⟩] := by
  have hempty : MemoryCache.asCache.hit? ∅ first = none := by
    simp [hit?, MemoryCache.asCache]
  have hother : MemoryCache.asCache.hit?
      (MemoryCache.asCache.insert ∅ (Cache.key first) ⟨g, first⟩) second = none := by
    rw [Option.eq_none_iff_forall_ne_some]
    intro graph hhit
    rw [hit?_eq_some, ← hkey] at hhit
    simp [MemoryCache.asCache, hne] at hhit
  have hfirst := serve_of_miss (⟨∅, []⟩ : Service _ ε) ⟨first, .ok g⟩ hempty rfl
  have hsecond := serve_of_miss (⟨MemoryCache.asCache.insert ∅ (Cache.key first) ⟨g, first⟩,
    [⟨⟨first, .ok g⟩, .ok ⟨g, false⟩⟩]⟩ : Service _ ε) ⟨second, .ok g'⟩ hother rfl
  simp [serveAll, hfirst, hsecond]

/-- The graph of the second of two such sets takes the place of the first one's, and is served for its
own files alone. -/
theorem result_eq_cached_iff_of_shared_key :
    let first : Contents := .ofList [("a", "b\x00c\x00d")]
    let second : Contents := .ofList [("a", "b"), ("c", "d")]
    let g : Graph := ⟨[], [.unresolved "x" "y"]⟩
    let qs : List (Inquiry Unit) := [⟨first, .ok .empty⟩, ⟨second, .ok g⟩]
    let s := serveAll MemoryCache.asCache ⟨∅, []⟩ qs
    first ≠ second ∧ Cache.key first = Cache.key second ∧
      (MemoryCache.asCache.analyze (fun _ => .error ()) s.entries second).result = .ok ⟨g, true⟩ ∧
      ∀ graph,
        (MemoryCache.asCache.analyze (fun _ => .error ()) s.entries first).result ≠ .ok ⟨graph, true⟩ := by
  intro first second g qs s
  have hne : first ≠ second := by decide +kernel
  have hkey : Cache.key first = Cache.key second := by
    have hstream : Cache.stream first = Cache.stream second := by decide +kernel
    rw [Cache.key, Cache.key, hstream]
  have hlog := log_serveAll_of_key_eq (ε := Unit) hne hkey .empty g
  have hiff (files : Contents) (graph : Graph) :=
    (result_eq_cached_iff qs ⟨files, .error ()⟩ graph).2.1
  simp only [qs, hlog] at hiff
  clear_value first second
  refine ⟨hne, hkey, (hiff second g).mpr ?_, fun graph hcached => ?_⟩
  · exact ⟨[_], _, [], rfl, ⟨rfl, rfl, rfl⟩, List.forall_mem_nil _⟩
  · have hsince := (hiff first graph).mp hcached
    rw [← List.singleton_append, since_append_singleton] at hsince
    obtain ⟨hfiles, -⟩ | ⟨-, hkept⟩ := hsince
    · exact hne hfiles.symm
    · exact hkept ⟨second, g, hkey.symm, rfl, rfl, rfl⟩

end AnalysisCache

end Flowgraph
