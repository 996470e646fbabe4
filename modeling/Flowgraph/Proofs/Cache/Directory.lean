import Flowgraph.Cache.Directory
import Flowgraph.Proofs.Graph.Json
import Flowgraph.Proofs.History
import Flowgraph.Proofs.Ordered
import Mathlib.Data.List.Induction

/-!
# Directories as caches

A cache in a directory answers as one in memory does, and its files are the entries alone.
-/

namespace Flowgraph

/-! ## Entries -/

namespace CachedAnalysis

theorem isPlain_toJson (a : CachedAnalysis) : a.toJson.IsPlain := by
  have hcontents : (Json.record (a.contents.toList.map fun f => (f.1, .ofString f.2))).IsPlain := by
    refine Json.isPlain_record fun e he => ?_
    obtain ⟨file, -, rfl⟩ := List.mem_map.mp he
    exact Json.isPlain_ofString file.2
  refine Json.isPlain_record ?_
  simp [Graph.isPlain_toJson, hcontents]

theorem ofJson?_toJson {a : CachedAnalysis} (ha : a.graph.HasFittingLines) :
    ofJson? a.toJson = some a := by
  have hcontents : contentsOfJson? (.record (a.contents.toList.map fun f => (f.1, .ofString f.2))) =
      some a.contents := by
    rw [contentsOfJson?, Json.asEntries?_record Json.asString?_ofString, Option.map_some,
      OrderedMap.ofList_toList]
  rw [toJson]
  -- The contents are kept from being unfolded with the record around them.
  generalize Json.record (a.contents.toList.map _) = contents at hcontents
  simp [ofJson?, Json.fields?, Json.record, Json.lookup?, Json.required, Graph.ofJson?_toJson ha,
    hcontents]

end CachedAnalysis

namespace DirectoryCache

variable {d d' : DirectoryCache} {key other name : String} {a : CachedAnalysis}

/-- An entry is decoded to the analysis that it encodes. -/
theorem decode?_encode (ha : a.graph.HasFittingLines) : decode? (encode a) = some a := by
  rw [decode?, encode, Json.parse?_pretty a.isPlain_toJson, Option.bind_some,
    CachedAnalysis.ofJson?_toJson ha]

/-! ## File names -/

theorem entryName_inj : entryName key = entryName other ↔ key = other :=
  String.append_left_inj ".json"

theorem temporaryName_inj : temporaryName key = temporaryName other ↔ key = other :=
  (String.append_left_inj ".tmp").trans entryName_inj

theorem entryName_ne_temporaryName (key other : String) : entryName key ≠ temporaryName other := by
  intro h
  have hlast := congrArg (fun name => name.toList.getLast?) h
  simp [entryName, temporaryName] at hlast

/-! ## One call -/

/-- A set analysis stands in the file of its key, and nothing is left of the temporary file. -/
theorem set_of_isKey (hkey : isKey key = true) (d : DirectoryCache) (a : CachedAnalysis) :
    d.set key a = .ok ((d.erase (temporaryName key)).insert (entryName key) (encode a)) := by
  have herase : (d.insert (temporaryName key) (encode a)).erase (temporaryName key) =
      d.erase (temporaryName key) := by
    refine Std.ExtTreeMap.ext_getElem? fun name => ?_
    simp only [Std.ExtTreeMap.getElem?_erase, Std.ExtTreeMap.getElem?_insert]
    split <;> rfl
  rw [set, if_pos hkey, rename, Std.ExtTreeMap.getElem?_insert_self]
  simp only [herase]

theorem set_of_not_isKey (hkey : isKey key = false) (d : DirectoryCache) (a : CachedAnalysis) :
    d.set key a = .error (.invalidKey key) := by
  simp [set, hkey]

theorem get_of_not_isKey (hkey : isKey key = false) (d : DirectoryCache) :
    d.get key = .error (.invalidKey key) := by
  simp [get, hkey]

theorem eq_of_set (h : d.set key a = .ok d') :
    d' = (d.erase (temporaryName key)).insert (entryName key) (encode a) := by
  cases hkey : isKey key with
  | false =>
    rw [set_of_not_isKey hkey] at h
    cases h
  | true =>
    rw [set_of_isKey hkey] at h
    exact (Except.ok.inj h).symm

theorem getElem?_temporaryName_of_set (h : d.set key a = .ok d') : d'[temporaryName key]? = none := by
  simp [eq_of_set h, entryName_ne_temporaryName]

/-- Setting an analysis does not concern other files. -/
theorem getElem?_of_set (h : d.set key a = .ok d') (hentry : name ≠ entryName key)
    (htemporary : name ≠ temporaryName key) : d'[name]? = d[name]? := by
  simp [eq_of_set h, Std.ExtTreeMap.getElem?_insert, Std.ExtTreeMap.getElem?_erase, hentry.symm,
    htemporary.symm]

/-! ## Directories and maps -/

/-- A directory that holds just what is in memory, each analysis in the file of its key. -/
structure Mirrors (d : DirectoryCache) (m : MemoryCache) : Prop where
  files : ∀ name text, d[name]? = some text ↔
    ∃ key a, m[key]? = some a ∧ name = entryName key ∧ text = encode a
  lines : ∀ (key : String) (a : CachedAnalysis), m[key]? = some a → a.graph.HasFittingLines

namespace Mirrors

variable {m : MemoryCache}

theorem empty : Mirrors ∅ ∅ where
  files := by simp
  lines := by simp

theorem getElem?_entryName (h : Mirrors d m) (key : String) :
    d[entryName key]? = m[key]?.map encode := by
  refine Option.ext fun text => ?_
  rw [h.files, Option.map_eq_some_iff]
  constructor
  · rintro ⟨key', a, ha, hname, rfl⟩
    obtain rfl := entryName_inj.mp hname
    exact ⟨a, ha, rfl⟩
  · rintro ⟨a, ha, rfl⟩
    exact ⟨key, a, ha, rfl, rfl⟩

theorem get_eq (h : Mirrors d m) (hkey : isKey key = true) : d.get key = .ok m[key]? := by
  rw [get, if_pos hkey, h.getElem?_entryName]
  cases hm : m[key]? with
  | none => rfl
  | some a => simp only [Option.map_some, decode?_encode (h.lines key a hm)]

theorem set (h : Mirrors d m) (ha : a.graph.HasFittingLines) :
    Mirrors ((d.erase (temporaryName key)).insert (entryName key) (encode a)) (m.insert key a) where
  files name text := by
    simp only [Std.ExtTreeMap.getElem?_insert, Std.ExtTreeMap.getElem?_erase,
      Std.LawfulEqCmp.compare_eq_iff_eq]
    by_cases hname : entryName key = name
    · subst hname
      rw [if_pos rfl]
      constructor
      · intro htext
        exact ⟨key, a, if_pos rfl, rfl, (Option.some.inj htext).symm⟩
      · rintro ⟨other, b, hb, hother, rfl⟩
        rw [if_pos (entryName_inj.mp hother)] at hb
        cases hb
        rfl
    · rw [if_neg hname]
      constructor
      · intro hfile
        split at hfile
        · cases hfile
        · obtain ⟨other, b, hb, rfl, htext⟩ := (h.files name text).mp hfile
          have hother : key ≠ other := fun heq => hname (congrArg entryName heq)
          exact ⟨other, b, (if_neg hother).trans hb, rfl, htext⟩
      · rintro ⟨other, b, hb, rfl, rfl⟩
        have hother : key ≠ other := fun heq => hname (congrArg entryName heq)
        rw [if_neg (entryName_ne_temporaryName other key).symm]
        exact (h.files _ _).mpr ⟨other, b, (if_neg hother).symm.trans hb, rfl, rfl⟩
  lines other b hb := by
    rw [Std.ExtTreeMap.getElem?_insert] at hb
    split at hb
    · cases hb
      exact ha
    · exact h.lines other b hb

end Mirrors

end DirectoryCache

/-! ## Calls -/

/-- A call of a cache. -/
inductive CacheCall where
  | get (key : String)
  | set (key : String) (a : CachedAnalysis)

namespace CacheCall

def key : CacheCall → String
  | get key | set key _ => key

/-- A cache after one call after another, with the answers. -/
def run {σ α : Type} (answer : σ → CacheCall → σ × α) (s : σ) (calls : List CacheCall) : σ × List α :=
  calls.foldl (fun r c => ((answer r.1 c).1, r.2 ++ [(answer r.1 c).2])) (s, [])

theorem run_append_singleton {σ α : Type} (answer : σ → CacheCall → σ × α) (s : σ)
    (calls : List CacheCall) (c : CacheCall) :
    run answer s (calls ++ [c]) = ((answer (run answer s calls).1 c).1,
      (run answer s calls).2 ++ [(answer (run answer s calls).1 c).2]) := by
  simp [run]

end CacheCall

/-- A cache in memory after a call, with the answer. Nothing is answered to setting an analysis. -/
def MemoryCache.answer (m : MemoryCache) : CacheCall → MemoryCache × Option CachedAnalysis
  | .get key => (m, m[key]?)
  | .set key a => (m.insert key a, none)

/-- A cache in a directory after a call, with the answer. A call that fails leaves the files as they
are. -/
def DirectoryCache.answer (d : DirectoryCache) :
    CacheCall → DirectoryCache × Except CacheError (Option CachedAnalysis)
  | .get key => (d, d.get key)
  | .set key a =>
    match d.set key a with
    | .ok d' => (d', .ok none)
    | .error e => (d, .error e)

open CacheCall

/-- In memory, a key has the analysis that has been set last. -/
theorem MemoryCache.getElem?_run (calls : List CacheCall) {key : String} {a : CachedAnalysis} :
    (run MemoryCache.answer ∅ calls).1[key]? = some a ↔
      Since (· = .set key a) (fun c => ∃ b, c = .set key b) calls := by
  induction calls using List.reverseRecOn with
  | nil =>
    simp [run, not_since_nil]
  | append_singleton calls c ih =>
    rw [run_append_singleton, since_append_singleton]
    cases c with
    | get other => simpa [MemoryCache.answer] using ih
    | set other b =>
      simp only [MemoryCache.answer, Std.ExtTreeMap.getElem?_insert, Std.LawfulEqCmp.compare_eq_iff_eq,
        CacheCall.set.injEq]
      by_cases hkey : other = key
      · simp [hkey]
      · simp [hkey, ih]

namespace DirectoryCache

/-- As long as all keys are valid, a directory answers as the memory does, and mirrors it. -/
theorem mirrors_run (calls : List CacheCall) (hkeys : ∀ c ∈ calls, isKey c.key = true)
    (hlines : ∀ key a, .set key a ∈ calls → a.graph.HasFittingLines) :
    (run DirectoryCache.answer ∅ calls).2 = (run MemoryCache.answer ∅ calls).2.map .ok ∧
      Mirrors (run DirectoryCache.answer ∅ calls).1 (run MemoryCache.answer ∅ calls).1 := by
  induction calls using List.reverseRecOn with
  | nil => exact ⟨rfl, .empty⟩
  | append_singleton calls c ih =>
    obtain ⟨hkeys, hkey⟩ := List.forall_mem_append.mp hkeys
    obtain ⟨hanswers, hmirrors⟩ := ih hkeys fun key a hc => hlines key a (List.mem_append_left _ hc)
    rw [run_append_singleton, run_append_singleton, List.map_append, ← hanswers]
    cases c with
    | get key =>
      have hlast : isKey key = true := hkey _ List.mem_cons_self
      refine ⟨?_, hmirrors⟩
      simp only [DirectoryCache.answer, MemoryCache.answer, hmirrors.get_eq hlast, List.map_singleton]
    | set key a =>
      have hlast : isKey key = true := hkey _ List.mem_cons_self
      have ha : a.graph.HasFittingLines :=
        hlines key a (List.mem_append_right _ (List.mem_singleton_self _))
      simp only [DirectoryCache.answer, MemoryCache.answer, set_of_isKey hlast]
      exact ⟨rfl, hmirrors.set ha⟩

/-- A cache in a directory that is empty at first answers as one in memory does: a key has the analysis
that has been set last, and all files are entries. An entry is decoded to what it encodes. Setting an
analysis concerns neither the entry of another key nor its temporary file, and of its own it leaves the
entry alone. A key of another shape is refused, and no file is touched. -/
theorem answers_run (calls : List CacheCall) (hkeys : ∀ c ∈ calls, isKey c.key = true)
    (hlines : ∀ key a, .set key a ∈ calls → a.graph.HasFittingLines) :
    let d := (run DirectoryCache.answer ∅ calls).1
    (run DirectoryCache.answer ∅ calls).2 = (run MemoryCache.answer ∅ calls).2.map .ok ∧
    (∀ key, isKey key = true → ∃ last, d.get key = .ok last ∧
      ∀ a, last = some a ↔ Since (· = .set key a) (fun c => ∃ b, c = .set key b) calls) ∧
    (∀ name ∈ d, ∃ key a, .set key a ∈ calls ∧ name = entryName key) ∧
    (∀ a : CachedAnalysis, a.graph.HasFittingLines → decode? (encode a) = some a) ∧
    (∀ (d : DirectoryCache) key a d', d.set key a = .ok d' → d'[temporaryName key]? = none ∧
      ∀ other ≠ key, d'[entryName other]? = d[entryName other]? ∧
        d'[temporaryName other]? = d[temporaryName other]?) ∧
    ∀ (d : DirectoryCache) key, isKey key = false → d.get key = .error (.invalidKey key) ∧
      ∀ a, d.answer (.set key a) = (d, .error (.invalidKey key)) := by
  intro d
  obtain ⟨hanswers, hmirrors⟩ := mirrors_run calls hkeys hlines
  refine ⟨hanswers, fun key hkey => ?_, fun name hname => ?_, fun a ha => decode?_encode ha,
    fun d key a d' hset => ⟨getElem?_temporaryName_of_set hset, fun other hother => ⟨?_, ?_⟩⟩,
    fun d key hkey => ⟨get_of_not_isKey hkey d, fun a => ?_⟩⟩
  · exact ⟨_, hmirrors.get_eq hkey, fun a => MemoryCache.getElem?_run calls⟩
  · obtain ⟨text, hfile⟩ := Option.isSome_iff_exists.mp
      (Std.ExtTreeMap.mem_iff_isSome_getElem?.mp hname)
    obtain ⟨key, a, ha, rfl, -⟩ := (hmirrors.files name text).mp hfile
    obtain ⟨before, c, after, rfl, rfl, -⟩ := (MemoryCache.getElem?_run calls).mp ha
    exact ⟨key, a, by simp, rfl⟩
  · exact getElem?_of_set hset (entryName_inj.not.mpr hother) (entryName_ne_temporaryName other key)
  · exact getElem?_of_set hset (entryName_ne_temporaryName key other).symm
      (temporaryName_inj.not.mpr hother)
  · simp only [answer, set_of_not_isKey hkey]

/-- Texts that have to be escaped, lines up to the largest one, and optional fields of either kind. -/
theorem answers_run_of_two_keys :
    let node : Node :=
      ⟨"a::\x01", "\"\\\n😀", "step", ⟨"a/b.py", Json.maxNat, "é"⟩, true, false, true, none⟩
    let edge : Edge := ⟨"a::\x01", "x", "calls", some "", none, some ⟨"", Json.maxNat, "\t"⟩⟩
    let a : CachedAnalysis := ⟨⟨[node], [edge]⟩, .ofList [("a/b.py", "x = \"\\\"\x1f\x7f")]⟩
    let b : CachedAnalysis := ⟨.empty, ∅⟩
    (run DirectoryCache.answer ∅
      [.get "k", .set "k" a, .set "K2" b, .get "k", .set "k" b, .set "K2" a, .get "k", .get "K2"]).2 =
      [.ok none, .ok none, .ok none, .ok (some a), .ok none, .ok none, .ok (some b), .ok (some a)] := by
  intro node edge a b
  have ha : a.graph.HasFittingLines := ⟨by simp [a, node], by simp [a, edge]⟩
  have hb : b.graph.HasFittingLines := ⟨nofun, nofun⟩
  refine (answers_run _ ?_ ?_).1.trans ?_
  · have hk : isKey "k" = true := by decide
    have hK : isKey "K2" = true := by decide
    simp only [List.forall_mem_cons]
    exact ⟨hk, hk, hK, hk, hk, hK, hk, hK, nofun⟩
  · intro key c hc
    simp only [List.mem_cons, List.not_mem_nil, CacheCall.set.injEq, reduceCtorEq, false_or,
      or_false] at hc
    rcases hc with ⟨-, rfl⟩ | ⟨-, rfl⟩ | ⟨-, rfl⟩ | ⟨-, rfl⟩
    · exact ha
    · exact hb
    · exact hb
    · exact ha
  · -- The memory answers without any text being read.
    clear_value a b
    simp [run, MemoryCache.answer, Std.ExtTreeMap.getElem_insert]

end DirectoryCache

end Flowgraph
