import Flowgraph.Proofs.Graph.Altering
import Flowgraph.Proofs.Store.InStep

/-!
# Updates and their patches

What an update of a file makes of a store together with the patch that it gives. There is none only for
a file that has not been tracked.
-/

namespace Flowgraph

namespace Store

variable {s t : Store} {path content : String} {patch : Option Patch} {p : Patch}

section Parsers

variable [Parsers]

/-- The call graph that an update takes is the one of the text, never the empty one in its place. -/
theorem tryExtract_eq_ok_extract (hlanguage : (Language.ofPath path).isSupported = true) :
    tryExtract content (Language.ofPath path) = .ok (extract content path) := by
  rw [extract]
  generalize Language.ofPath path = l at hlanguage ⊢
  cases l with
  | unknown => cases hlanguage
  | _ => rfl

/-- What an update of a file to a content makes of a store, with the patch. -/
inductive Revises (s : Store) (path content : String) : Store → Option Patch → Prop
  | unsupported (hlanguage : (Language.ofPath path).isSupported = false) : Revises s path content s none
  | refused (hfile : s.graph.hasFile path = true) (huntracked : s.callGraphs[path]? = none) :
      Revises s path content s none
  | remembered (entry : IndexEntry) (hlanguage : (Language.ofPath path).isSupported = true) :
      Revises s path content (s.withFile path content (extract content path) entry)
        (if s.isTracked path = true then some .empty else none)
  | drawn (entry : IndexEntry) (u : Graph.Update) (p : Patched)
      (hlanguage : (Language.ofPath path).isSupported = true)
      (hplan : s.plan path content (extract content path) = .patch u ∨
        s.plan path content (extract content path) = .join u)
      (hp : p = ((s.resolver.updateEntry path entry).affected.insert path).toList.foldl
        Patched.spliceFile ⟨{ s.withFile path content (extract content path) entry with
          graph := u.graph }, u.patch⟩) :
      Revises s path content p.store (some p.patch)

theorem revises_of_commit {u : Graph.Update}
    (hlanguage : (Language.ofPath path).isSupported = true)
    (hplan : s.plan path content (extract content path) = .patch u ∨
      s.plan path content (extract content path) = .join u)
    (h : (s.commit path content (extract content path) u).map (fun p => (p.store, some p.patch)) =
      .ok (t, patch)) : s.Revises path content t patch := by
  obtain ⟨p, hp, heq⟩ := Outcome.map_eq_ok.mp h
  obtain ⟨i, hi, rfl⟩ := Outcome.map_eq_ok.mp hp
  obtain ⟨entry, -, rfl⟩ := index_eq_ok.mp hi
  cases heq
  exact .drawn entry u _ hlanguage hplan rfl

theorem revises_of_localUpdate (h : s.localUpdate path content = .ok (t, patch)) :
    s.Revises path content t patch := by
  rw [localUpdate] at h
  cases hlanguage : (Language.ofPath path).isSupported with
  | false =>
    simp only [hlanguage, Bool.false_eq_true, if_false] at h
    cases h
    exact .unsupported hlanguage
  | true =>
    simp only [hlanguage, if_true] at h
    cases hplan : s.plan path content (extract content path) with
    | patch u =>
      simp only [hplan] at h
      exact revises_of_commit hlanguage (.inl hplan) h
    | join u =>
      simp only [hplan] at h
      exact revises_of_commit hlanguage (.inr hplan) h
    | remember known =>
      simp only [hplan] at h
      obtain ⟨i, hi, heq⟩ := Outcome.map_eq_ok.mp h
      obtain ⟨entry, -, rfl⟩ := index_eq_ok.mp hi
      cases heq
      obtain ⟨-, -, rfl⟩ := plan_eq_remember_iff.mp hplan
      exact .remembered entry hlanguage
    | refuse =>
      obtain ⟨hfile, hdiff⟩ := plan_eq_refuse_iff.mp hplan
      simp only [hplan] at h
      cases h
      refine .refused hfile (Option.eq_none_iff_forall_ne_some.mpr fun old hold => ?_)
      -- A difference of two call graphs can always be applied.
      obtain ⟨u, hu⟩ := s.graph.exists_applyDiff_diff old (extract content path) path
      exact hdiff old hold u hu

theorem graph_eq_of_localUpdate (h : s.localUpdate path content = .ok (t, none)) :
    t.graph = s.graph := by
  generalize hpatch : (none : Option Patch) = patch at h
  cases revises_of_localUpdate h with
  | unsupported | refused | remembered => rfl
  | drawn => cases hpatch

/-! ## Plans -/

/-- A change that an update plans is a difference from the kept call graph, or brings in a file that has
had no nodes. -/
theorem plan_cases {u : Graph.Update}
    (h : s.plan path content (extract content path) = .patch u ∨
      s.plan path content (extract content path) = .join u) :
    (∃ old, s.callGraphs[path]? = some old ∧
        s.graph.applyDiff (old.diff (extract content path)) (extract content path) path = .ok u) ∨
      s.graph.hasFile path = false ∧
        u = s.graph.mergeFile path (Graph.ofCallGraph (extract content path) path) := by
  rcases h with h | h
  · obtain ⟨-, old, hold, hdiff⟩ := plan_eq_patch_iff.mp h
    exact .inl ⟨old, hold, hdiff⟩
  · obtain ⟨hfile, -, rfl⟩ := plan_eq_join_iff.mp h
    exact .inr ⟨hfile, rfl⟩

end Parsers

/-! ## Patches -/

/-- Drawing edges adds to the counts of a patch and to nothing else of it. -/
theorem exists_patch_foldl_spliceFile (files : List String) (p : Patched) :
    ∃ added removed, (files.foldl Patched.spliceFile p).patch =
      { p.patch with edgesAdded := added, edgesRemoved := removed } := by
  induction files generalizing p with
  | nil => exact ⟨_, _, rfl⟩
  | cons file files ih => exact ih (p.spliceFile file)

theorem exists_patch_removeFile (s : Store) (path : String) :
    ∃ added removed, (s.removeFile path).patch = { (s.withoutFile path).patch with
      edgesAdded := added, edgesRemoved := removed } := by
  rw [patch_removeFile]
  exact exists_patch_foldl_spliceFile _ _

@[simp]
theorem nodesAdded_removeFile (s : Store) (path : String) :
    (s.removeFile path).patch.nodesAdded = [] := by
  obtain ⟨added, removed, hpatch⟩ := exists_patch_removeFile s path
  rw [hpatch]
  rfl

@[simp]
theorem changedFunctions_removeFile (s : Store) (path : String) :
    (s.removeFile path).patch.changedFunctions = [] := by
  obtain ⟨added, removed, hpatch⟩ := exists_patch_removeFile s path
  rw [hpatch]
  rfl

/-! ## Tracked files -/

theorem isTracked_eq_isSome (s : Store) (path : String) :
    s.isTracked path = s.callGraphs[path]?.isSome :=
  Std.ExtTreeMap.contains_eq_isSome_getElem?

theorem isTracked_withFile_self (s : Store) (path content : String) (calls : CallGraph)
    (entry : IndexEntry) : (s.withFile path content calls entry).isTracked path = true := by
  rw [isTracked_eq_isSome, getElem?_callGraphs_withFile, if_pos rfl, Option.isSome_some]

variable [Parsers]

/-- A tracked file in a language that is supported can always be patched. -/
theorem isTracked_eq_false_of_localUpdate (h : s.localUpdate path content = .ok (t, none))
    (hlanguage : (Language.ofPath path).isSupported = true) : s.isTracked path = false := by
  generalize hpatch : (none : Option Patch) = patch at h
  cases revises_of_localUpdate h with
  | unsupported hnot => exact absurd hlanguage (by simp [hnot])
  | refused hfile huntracked => rw [isTracked_eq_isSome, huntracked, Option.isSome_none]
  | remembered entry => simpa using hpatch
  | drawn => cases hpatch

theorem isTracked_of_localUpdate (h : s.localUpdate path content = .ok (t, some p)) :
    (Language.ofPath path).isSupported = true ∧ t.isTracked path = true := by
  generalize hpatch : some p = patch at h
  cases revises_of_localUpdate h with
  | unsupported | refused => cases hpatch
  | remembered entry hlanguage => exact ⟨hlanguage, isTracked_withFile_self ..⟩
  | drawn entry u p hlanguage hplan hp =>
    refine ⟨hlanguage, ?_⟩
    rw [hp, store_foldl_spliceFile]
    exact isTracked_withFile_self s path content _ entry

end Store

end Flowgraph
