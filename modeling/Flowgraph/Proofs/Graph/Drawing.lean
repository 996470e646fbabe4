import Flowgraph.Proofs.Graph.Splicing
import Flowgraph.Proofs.Resolver.Updating

/-!
# Drawing recorded calls

What a graph links after the edges that lead out of some files have been drawn after the calls that a
resolver has recorded for them.
-/

namespace Flowgraph

/-- Whether a call from a function of a file to a function of another is recorded. -/
def Resolver.Records (r : Resolver) (file function file' function' : String) : Prop :=
  ∃ c ∈ r.calls, c.Joins file function file' function'

namespace Graph

variable {g h k : Graph} {r : Resolver} {file function file' function' path : String}
  {files : List String}

/-- Draws the edges that lead out of files, one after another. -/
def spliceFiles (r : Resolver) (files : List String) (g : Graph) : Graph :=
  files.foldl (fun g file => (g.splice file (r.callsFrom file).toList).graph) g

/-- `h` is `g` with the edges that lead out of `files` drawn after the recorded calls. -/
structure Draws (g : Graph) (r : Resolver) (files : List String) (h : Graph) : Prop where
  wellFormed : h.WellFormed
  keys_eq : h.nodes.map Node.key = g.nodes.map Node.key
  places_eq : h.places = g.places
  unnamed : ∀ e ∈ h.edges, e ∈ g.edges ∨ e = .unresolved e.source e.target
  isFresh : (∀ n ∈ g.nodes, n.IsFresh) → ∀ n ∈ h.nodes, n.IsFresh
  flagsRight : g.FlagsRight → h.FlagsRight
  hasEdge_of_not_out : ∀ file function file' function', g.Shows file function →
    g.Shows file' function' → (file ∈ files → file' = file) →
    (h.hasEdge (nodeId file function) (nodeId file' function') = true ↔
      g.hasEdge (nodeId file function) (nodeId file' function') = true)
  hasEdge_out : (∀ e ∈ g.edges, e = .unresolved e.source e.target) →
    ∀ file function file' function', g.Shows file function → g.Shows file' function' →
      file ∈ files → file' ≠ file →
      (h.hasEdge (nodeId file function) (nodeId file' function') = true ↔
        r.Records file function file' function')

theorem exists_joins_callsFrom_iff :
    (∃ c ∈ (r.callsFrom file).toList, c.Joins file function file' function') ↔
      r.Records file function file' function' := by
  simp only [Std.ExtTreeSet.mem_toList, Resolver.mem_callsFrom, Resolver.Records]
  constructor
  · rintro ⟨c, ⟨hc, -⟩, hjoins⟩
    exact ⟨c, hc, hjoins⟩
  · rintro ⟨c, hc, hjoins⟩
    exact ⟨c, ⟨hc, hjoins.1⟩, hjoins⟩

theorem records_congr {s : Resolver} (h : s.callsFrom file = r.callsFrom file) :
    s.Records file function file' function' ↔ r.Records file function file' function' := by
  rw [← exists_joins_callsFrom_iff, ← exists_joins_callsFrom_iff, h]

namespace Draws

theorem refl (hg : g.WellFormed) : g.Draws r [] g :=
  ⟨hg, rfl, rfl, fun _ => .inl, id, id, fun _ _ _ _ _ _ _ => Iff.rfl,
    fun _ _ _ _ _ _ _ hfile _ => absurd hfile List.not_mem_nil⟩

theorem shows_iff (hd : g.Draws r files h) : h.Shows file function ↔ g.Shows file function :=
  shows_congr hd.keys_eq

theorem unnamed_of_unnamed (hd : g.Draws r files h)
    (hg : ∀ e ∈ g.edges, e = .unresolved e.source e.target) :
    ∀ e ∈ h.edges, e = .unresolved e.source e.target := fun e he =>
  (hd.unnamed e he).elim (hg e) id

theorem splice (hg : g.WellFormed) (hr : r.IsProper) (path : String) :
    g.Draws r [path] (g.splice path (r.callsFrom path).toList).graph := by
  have hcalls : ∀ c ∈ (r.callsFrom path).toList, c.IsProper := fun c hc =>
    hr c (Resolver.mem_callsFrom.mp (Std.ExtTreeSet.mem_toList.mp hc)).1
  have hspliced := hg.spliced hcalls path
  refine ⟨hspliced.wellFormed, hspliced.keys_eq, hspliced.places_eq, hspliced.unnamed,
    hspliced.isFresh, hspliced.flagsRight, ?_, ?_⟩
  · intro file function file' function' hs ht hfiles
    refine hspliced.hasEdge_of_not_out hg hcalls hs ht ?_
    rintro rfl
    exact hfiles List.mem_cons_self
  · rintro hunnamed file function file' function' hs ht hfile hne
    obtain rfl := List.mem_singleton.mp hfile
    rw [hspliced.hasEdge_out hg hunnamed hs ht hne, exists_joins_callsFrom_iff]

theorem cons (hgh : g.Draws r [path] h) (hhk : h.Draws r files k) :
    g.Draws r (path :: files) k where
  wellFormed := hhk.wellFormed
  keys_eq := hhk.keys_eq.trans hgh.keys_eq
  places_eq := hhk.places_eq.trans hgh.places_eq
  unnamed e he := by
    rcases hhk.unnamed e he with he | he
    · exact hgh.unnamed e he
    · exact .inr he
  isFresh hg := hhk.isFresh (hgh.isFresh hg)
  flagsRight hg := hhk.flagsRight (hgh.flagsRight hg)
  hasEdge_of_not_out file function file' function' hs ht hfiles := by
    rw [hhk.hasEdge_of_not_out _ _ _ _ (hgh.shows_iff.mpr hs) (hgh.shows_iff.mpr ht) fun hfile =>
      hfiles (List.mem_cons_of_mem _ hfile)]
    refine hgh.hasEdge_of_not_out _ _ _ _ hs ht fun hfile => hfiles ?_
    exact List.mem_singleton.mp hfile ▸ List.mem_cons_self
  hasEdge_out hg file function file' function' hs ht hfile hne := by
    have hs' := hgh.shows_iff.mpr hs
    have ht' := hgh.shows_iff.mpr ht
    -- The last drawing of a file tells its edges, and later files leave them alone.
    by_cases hlater : file ∈ files
    · exact hhk.hasEdge_out (hgh.unnamed_of_unnamed hg) _ _ _ _ hs' ht' hlater hne
    · rw [hhk.hasEdge_of_not_out _ _ _ _ hs' ht' fun hfile => absurd hfile hlater]
      refine hgh.hasEdge_out hg _ _ _ _ hs ht ?_ hne
      exact List.mem_singleton.mpr ((List.mem_cons.mp hfile).resolve_right hlater)

theorem spliceFiles (hg : g.WellFormed) (hr : r.IsProper) (files : List String) :
    g.Draws r files (g.spliceFiles r files) := by
  induction files generalizing g with
  | nil => exact refl hg
  | cons path files ih =>
    have hfirst := Draws.splice hg hr path
    exact hfirst.cons (ih hfirst.wellFormed)

/-- The part of every file stays as it is. -/
theorem mirrors (hd : g.Draws r files h) {calls : CallGraph} (hm : g.Mirrors file calls) :
    h.Mirrors file calls :=
  hm.congr hd.places_eq fun _ _ hcaller hcallee =>
    hd.hasEdge_of_not_out _ _ _ _ hcaller hcallee fun _ => rfl

end Draws

/-! ## Drawn calls -/

/-- The recorded calls of a file stay drawn, whichever files are drawn again. -/
theorem IsDrawn.spliceFiles (hids : g.nodeIds.Nodup) (hg : g.IsDrawn path (r.callsFrom path).toList)
    (files : List String) : (g.spliceFiles r files).IsDrawn path (r.callsFrom path).toList := by
  induction files generalizing g with
  | nil => exact hg
  | cons file files ih =>
    unfold Graph.spliceFiles
    rw [List.foldl_cons]
    by_cases hfile : file = path
    · rw [hfile, hg.splice_eq]
      exact ih hids hg
    · refine ih ?_ (hg.splice_of_ne hids hfile)
      rwa [nodeIds_congr (map_key_splice hids _ _)]

/-- Once a file has been drawn, its recorded calls are drawn. -/
theorem isDrawn_spliceFiles (hids : g.nodeIds.Nodup) (hpath : path ∈ files) :
    (g.spliceFiles r files).IsDrawn path (r.callsFrom path).toList := by
  induction files generalizing g with
  | nil => exact absurd hpath List.not_mem_nil
  | cons file files ih =>
    have hids' : (g.splice file (r.callsFrom file).toList).graph.nodeIds.Nodup := by
      rwa [nodeIds_congr (map_key_splice hids _ _)]
    unfold Graph.spliceFiles
    rw [List.foldl_cons]
    rcases List.mem_cons.mp hpath with rfl | hlater
    · exact (isDrawn_splice hids).spliceFiles hids' files
    · exact ih hids' hlater

end Graph

end Flowgraph
