import Flowgraph.Proofs.Engine.Deeds
import Flowgraph.Proofs.Engine.Deletion
import Flowgraph.Proofs.Store.Updating
import Flowgraph.Syntax.Parsers

/-!
# Highlights of edited files

What is reported of a file as it is edited follows a protocol. Whoever sees only the messages and the
events of a run knows at each time which highlight the file has, since when, and which functions its
patches have touched.
-/

namespace Flowgraph

/-! ## The protocol -/

/-- Whether one highlight of a file can follow another. -/
def EditState.canTurn : EditState → EditState → Bool
  | .unchanged, .active => true
  | .active, .active => true
  | .active, .changed => true
  | .active, .unchanged => true
  | .changed, .active => true
  | .changed, .unchanged => true
  | _, _ => false

namespace Occurrence

/-- The message that is heard. -/
def message? : Occurrence → Option Message
  | heard message => some message
  | effect _ => none

/-- Whether an occurrence is the deletion of a file, a patch of it or a highlight. -/
def concerns (path : String) : Occurrence → Bool
  | heard (.change ⟨file, .delete⟩) => file == path
  | effect (.emit (.graphPatched file _ _)) => file == path
  | effect (.emit (.fileState file _ _)) => file == path
  | _ => false

theorem concerns_eq_false_of_isAside {o : Occurrence} (h : o.isAside = true) (path : String) :
    o.concerns path = false := by
  unfold isAside at h
  split at h
  next c =>
    obtain ⟨file, kind⟩ := c
    cases kind with
    | delete => cases h
    | create | modify => rfl
  next message hnot =>
    cases message with
    | change c => exact absurd rfl (hnot c)
    | analyze | deadline | classified | analyzed => rfl
  all_goals first | rfl | cases h

end Occurrence

/-- The last message that has been heard. -/
def lastHeard? (log : List (Nat × Occurrence)) : Option Message :=
  (log.filterMap fun o => o.2.message?).getLast?

/-- What can be known of the highlight of a file from what has been seen. -/
structure Highlight where
  state : EditState
  /-- The functions that the patches of the file have touched, one patch after another. -/
  touched : List String
  /-- When the file has last become active. -/
  since : Nat

namespace Highlight

/-- The highlight of a file of which nothing has been seen. -/
def none : Highlight := ⟨.unchanged, [], 0⟩

/-- The highlight after something more has been seen. A deletion of the file resets it. -/
def see (path : String) (h : Highlight) : Nat × Occurrence → Highlight
  | (_, .heard (.change ⟨file, .delete⟩)) => if file = path then none else h
  | (_, .effect (.emit (.graphPatched file patch graph))) =>
    if file = path then { h with touched := h.touched ++ Engine.touchedFunctions graph patch } else h
  | (now, .effect (.emit (.fileState file state _))) =>
    if file = path then
      match state with
      | .active => { h with state := .active, since := now }
      | .changed => { h with state := .changed }
      | .unchanged => none
    else h
  | _ => h

/-- The highlight of a file after a log. -/
def ofLog (path : String) (log : List (Nat × Occurrence)) : Highlight := log.foldl (see path) none

/-- What the protocol asks of a highlight that is reported at a time after a log. -/
structure Permits (inactivity : Nat) (path : String) (before : List (Nat × Occurrence)) (now : Nat)
    (state : EditState) (functions : List String) : Prop where
  canTurn : (ofLog path before).state.canTurn state = true
  quiet : state = .changed → (ofLog path before).since + inactivity ≤ now
  analyzed : state = .unchanged →
    ∃ reason files result, lastHeard? before = some (.analyzed reason files (.ok result))
  functions_eq : state ≠ .unchanged → functions = (ofLog path before).touched.eraseDups

/-- Every highlight of a file that a log reports is one that the protocol permits. -/
def Lawful (inactivity : Nat) (path : String) (log : List (Nat × Occurrence)) : Prop :=
  ∀ before now state functions, before ++ [(now, .event (.fileState path state functions))] <+: log →
    Permits inactivity path before now state functions

/-! ## Logs -/

variable {path : String} {h : Highlight} {o : Occurrence} {now inactivity : Nat}
  {log : List (Nat × Occurrence)} {seen : List Occurrence}

theorem ofLog_append (path : String) (log log' : List (Nat × Occurrence)) :
    ofLog path (log ++ log') = log'.foldl (see path) (ofLog path log) :=
  List.foldl_append

theorem see_of_not_concerns (ho : o.concerns path = false) : see path h (now, o) = h := by
  unfold see
  split
  next heq =>
    cases heq
    exact if_neg (ne_of_beq_false ho)
  next heq =>
    cases heq
    exact if_neg (ne_of_beq_false ho)
  next heq =>
    cases heq
    exact if_neg (ne_of_beq_false ho)
  next => rfl

theorem ofLog_append_deletion (path : String) (log : List (Nat × Occurrence)) (now : Nat) :
    ofLog path (log ++ [(now, .heard (.change ⟨path, .delete⟩))]) = none := by
  rw [ofLog_append]
  exact if_pos rfl

theorem ofLog_append_patch (path : String) (log : List (Nat × Occurrence)) (now : Nat) (patch : Patch)
    (graph : Graph) :
    ofLog path (log ++ [(now, .event (.graphPatched path patch graph))]) = { ofLog path log with
      touched := (ofLog path log).touched ++ Engine.touchedFunctions graph patch } := by
  rw [ofLog_append]
  exact if_pos rfl

theorem ofLog_append_highlight (path : String) (log : List (Nat × Occurrence)) (now : Nat)
    (state : EditState) (functions : List String) :
    ofLog path (log ++ [(now, .event (.fileState path state functions))]) =
      match state with
      | .active => { ofLog path log with state := .active, since := now }
      | .changed => { ofLog path log with state := .changed }
      | .unchanged => none := by
  rw [ofLog_append]
  exact if_pos rfl

theorem ofLog_append_of_not_concerns (hseen : ∀ o ∈ seen, o.concerns path = false) :
    ofLog path (log ++ seen.map (now, ·)) = ofLog path log := by
  rw [ofLog_append]
  generalize ofLog path log = h
  induction seen with
  | nil => rfl
  | cons o seen ih =>
    obtain ⟨ho, hseen⟩ := List.forall_mem_cons.mp hseen
    rw [List.map_cons, List.foldl_cons, see_of_not_concerns ho]
    exact ih hseen

theorem Lawful.nil : Lawful inactivity path [] := by
  intro before now state functions hbefore
  exact absurd (List.prefix_nil.mp hbefore) (by simp)

theorem Lawful.append_singleton (hlog : Lawful inactivity path log)
    (ho : ∀ state functions, o = .event (.fileState path state functions) →
      Permits inactivity path log now state functions) :
    Lawful inactivity path (log ++ [(now, o)]) := by
  intro before now' state functions hbefore
  rcases List.prefix_concat_iff.mp hbefore with heq | hbefore
  · obtain ⟨rfl, hlast⟩ := List.append_inj' heq rfl
    obtain ⟨rfl, rfl⟩ := Prod.mk.inj (List.singleton_inj.mp hlast)
    exact ho state functions rfl
  · exact hlog before now' state functions hbefore

theorem Lawful.append_of_not_concerns (hlog : Lawful inactivity path log)
    (hseen : ∀ o ∈ seen, o.concerns path = false) :
    Lawful inactivity path (log ++ seen.map (now, ·)) := by
  induction seen generalizing log with
  | nil => rwa [List.map_nil, List.append_nil]
  | cons o seen ih =>
    obtain ⟨ho, hseen⟩ := List.forall_mem_cons.mp hseen
    rw [List.map_cons, List.append_cons]
    refine ih (hlog.append_singleton ?_) hseen
    rintro state functions rfl
    simp [Occurrence.concerns] at ho

theorem lastHeard?_append_effect (log : List (Nat × Occurrence)) (now : Nat) (effect : Effect) :
    lastHeard? (log ++ [(now, .effect effect)]) = lastHeard? log := by
  simp [lastHeard?, Occurrence.message?]

/-- Where an analysis has just come back, the files that are edited may be reported as unchanged, each
of them once. -/
theorem Lawful.append_unchanged {files : List String} {reason : String} {contents : Contents}
    {result : AnalysisResult} (hlog : Lawful inactivity path log) (hnodup : files.Nodup)
    (hedited : path ∈ files → (ofLog path log).state ≠ .unchanged)
    (hanalyzed : lastHeard? log = some (.analyzed reason contents (.ok result))) :
    Lawful inactivity path
        (log ++ files.map fun file => (now, .event (.fileState file .unchanged []))) ∧
      ofLog path (log ++ files.map fun file => (now, .event (.fileState file .unchanged []))) =
        if path ∈ files then none else ofLog path log := by
  induction files generalizing log with
  | nil => simpa using hlog
  | cons file files ih =>
    obtain ⟨hnew, hnodup⟩ := List.nodup_cons.mp hnodup
    have hlast : ofLog path (log ++ [(now, .event (.fileState file .unchanged []))]) =
        if file = path then none else ofLog path log := by
      rw [ofLog_append]
      rfl
    rw [List.map_cons, List.append_cons]
    have hmore : Lawful inactivity path (log ++ [(now, .event (.fileState file .unchanged []))]) := by
      refine hlog.append_singleton fun state functions heq => ?_
      cases heq
      refine ⟨?_, nofun, fun _ => ⟨reason, contents, result, hanalyzed⟩, fun hne => absurd rfl hne⟩
      cases hstate : (ofLog path log).state with
      | unchanged => exact absurd hstate (hedited List.mem_cons_self)
      | changed | active => rfl
    obtain ⟨hlawful, heq⟩ := ih hmore hnodup (fun hmem => by
      rw [hlast, if_neg (by rintro rfl; exact hnew hmem)]
      exact hedited (List.mem_cons_of_mem _ hmem)) (by rw [lastHeard?_append_effect, hanalyzed])
    refine ⟨hlawful, heq.trans ?_⟩
    rw [hlast]
    by_cases hfile : file = path
    · subst hfile
      simp
    · simp [hfile, Ne.symm hfile]

/-! ## The engine -/

/-- The engine keeps the highlight of a file that follows from what has been seen, with the deadline at
which an active file is shown as changed. -/
structure Agrees (timing : Timing) (path : String) (h : Highlight) (e : Engine) : Prop where
  timing_eq : e.timing = timing
  activity_eq : e.activity[path]? =
    if h.state = .unchanged then .none else some ⟨h.state, h.touched.eraseDups⟩
  editing_eq : e.editing.times[path]? =
    if h.state = .active then some (h.since + timing.editingInactivity) else .none
  touched_eq : h.state = .unchanged → h.touched = []
  /-- An edited file can always be patched. -/
  tracked : h.state ≠ .unchanged →
    (Language.ofPath path).isSupported = true ∧ e.store.isTracked path = true

namespace Agrees

variable {timing : Timing} {e e' : Engine}

theorem congr (ha : Agrees timing path h e) (htiming : e'.timing = e.timing)
    (hactivity : e'.activity[path]? = e.activity[path]?)
    (hediting : e'.editing.times[path]? = e.editing.times[path]?)
    (htracked : e.store.isTracked path = true → e'.store.isTracked path = true) :
    Agrees timing path h e' where
  timing_eq := htiming.trans ha.timing_eq
  activity_eq := hactivity.trans ha.activity_eq
  editing_eq := hediting.trans ha.editing_eq
  touched_eq := ha.touched_eq
  tracked hstate := (ha.tracked hstate).imp_right htracked

/-- A file without a highlight. -/
theorem none (htiming : e.timing = timing) (hactivity : e.activity[path]? = .none)
    (hediting : e.editing.times[path]? = .none) : Agrees timing path none e where
  timing_eq := htiming
  activity_eq := hactivity
  editing_eq := hediting
  touched_eq _ := rfl
  tracked hstate := absurd rfl hstate

theorem touched_eq_eraseDups (ha : Agrees timing path h e) : e.touched path = h.touched.eraseDups := by
  rw [Engine.touched, ha.activity_eq]
  split
  next hstate => simp [ha.touched_eq hstate]
  next => rfl

theorem mem_editedFiles (ha : Agrees timing path h e) :
    path ∈ e.editedFiles ↔ h.state ≠ .unchanged := by
  have hedited : path ∈ e.editedFiles ↔ ∃ a, e.activity[path]? = some a ∧ a.state ≠ .unchanged := by
    simp [Engine.editedFiles, Std.ExtTreeMap.mem_toList_iff_getElem?_eq_some]
  rw [hedited, ha.activity_eq]
  by_cases hstate : h.state = .unchanged <;> simp [hstate]

end Agrees

theorem nodup_editedFiles (e : Engine) : e.editedFiles.Nodup := by
  refine List.Nodup.sublist (List.filter_sublist.map Prod.fst) ?_
  rw [Std.ExtTreeMap.map_fst_toList_eq_keys]
  exact e.activity.nodup_keys

theorem addNew_eraseDups (known functions : List String) :
    Engine.addNew known.eraseDups functions = (known ++ functions).eraseDups := by
  induction functions generalizing known with
  | nil => simp [Engine.addNew]
  | cons f functions ih =>
    have hone : (if known.eraseDups.contains f = true then known.eraseDups
        else known.eraseDups ++ [f]) = (known ++ [f]).eraseDups := by
      rw [List.eraseDups_append]
      by_cases hf : f ∈ known <;> simp [List.removeAll, List.eraseDups_cons, hf]
    rw [List.append_cons, ← ih, ← hone]
    rfl

/-! ## Deeds -/

/-- The highlights that a log reports of a file are lawful, and the engine agrees with them. -/
structure Follows (timing : Timing) (path : String) (log : List (Nat × Occurrence)) (e : Engine) :
    Prop where
  agrees : Agrees timing path (ofLog path log) e
  lawful : Lawful timing.editingInactivity path log

namespace Follows

variable {timing : Timing} {graphs : Contents → Graph → Prop} {read : String → Option String}
  {e e' : Engine}

/-- A deed that is not about the file. -/
theorem frame (hf : Follows timing path log e) (hseen : ∀ o ∈ seen, o.concerns path = false)
    (htiming : e'.timing = e.timing) (hactivity : e'.activity[path]? = e.activity[path]?)
    (hediting : e'.editing.times[path]? = e.editing.times[path]?)
    (htracked : e.store.isTracked path = true → e'.store.isTracked path = true) :
    Follows timing path (log ++ seen.map (now, ·)) e' where
  agrees := by
    rw [ofLog_append_of_not_concerns hseen]
    exact hf.agrees.congr htiming hactivity hediting htracked
  lawful := hf.lawful.append_of_not_concerns hseen

theorem forgotten (hf : Follows timing path log e) :
    Follows timing path (log ++ [(now, .heard (.change ⟨path, .delete⟩))]) (e.without path) where
  agrees := by
    rw [ofLog_append_deletion]
    exact .none hf.agrees.timing_eq (by simp [Engine.without])
      (by simp [Engine.without, Deadlines.cancel])
  lawful := hf.lawful.append_singleton nofun

theorem deleted (hf : Follows timing path log e) (graph : Graph) :
    Follows timing path (log ++ [(now, .heard (.change ⟨path, .delete⟩)),
        (now, .event (.graphPatched path (e.store.removeFile path).patch graph))])
      (e.without path).publish := by
  have hforgotten : Follows timing path (log ++ [(now, .heard (.change ⟨path, .delete⟩))])
      (e.without path) := hf.forgotten
  have htouched : Engine.touchedFunctions graph (e.store.removeFile path).patch = [] := by
    rw [Engine.touchedFunctions, Store.nodesAdded_removeFile, Store.changedFunctions_removeFile]
    rfl
  rw [List.append_cons]
  refine ⟨?_, hforgotten.lawful.append_singleton nofun⟩
  rw [ofLog_append_patch, ofLog_append_deletion, htouched]
  exact .none hf.agrees.timing_eq (by simp [Engine.without, Engine.publish])
    (by simp [Engine.without, Engine.publish, Deadlines.cancel])

theorem patched {store : Store} (hf : Follows timing path log e) (patch : Patch)
    (htracked : (Language.ofPath path).isSupported = true ∧ store.isTracked path = true) :
    Follows timing path (log ++ [(now, .event (.graphPatched path patch store.graph)),
        (now, .event (.fileState path .active
          (Engine.addNew (e.touched path) (Engine.touchedFunctions store.graph patch))))])
      (e.onPatched now path store patch) := by
  have hfunctions : Engine.addNew (e.touched path) (Engine.touchedFunctions store.graph patch) =
      ((ofLog path log).touched ++ Engine.touchedFunctions store.graph patch).eraseDups := by
    rw [hf.agrees.touched_eq_eraseDups, addNew_eraseDups]
  rw [List.append_cons]
  constructor
  · rw [ofLog_append_highlight, ofLog_append_patch]
    dsimp only
    refine ⟨hf.agrees.timing_eq, ?_, ?_, (fun h => by cases h), fun _ => htracked⟩
    · simp [Engine.onPatched, hfunctions]
    · simp [Engine.onPatched, Deadlines.schedule, hf.agrees.timing_eq]
  · have hpatched : Lawful timing.editingInactivity path
        (log ++ [(now, .event (.graphPatched path patch store.graph))]) :=
      hf.lawful.append_singleton fun _ _ heq => by cases heq
    refine hpatched.append_singleton fun state functions heq => ?_
    cases heq
    refine ⟨?_, (fun h => by cases h), (fun h => by cases h), fun _ => ?_⟩
    · cases (ofLog path (log ++ [(now, .event (.graphPatched path patch store.graph))])).state <;> rfl
    · rw [ofLog_append_patch, hfunctions]

/-- The file has been quiet for long enough. -/
theorem calmed (hf : Follows timing path log e) (hdue : path ∈ e.editing.due now) :
    Follows timing path (log ++ [(now, .event (.fileState path .changed (e.touched path)))])
      { e with
        editing := e.editing.cancel path
        activity := e.activity.insert path ⟨.changed, e.touched path⟩ } := by
  obtain ⟨deadline, htime, hnow⟩ := Deadlines.mem_due.mp hdue
  rw [hf.agrees.editing_eq, Option.ite_none_right_eq_some, Option.some.injEq] at htime
  obtain ⟨hactive, rfl⟩ := htime
  have htouched := hf.agrees.touched_eq_eraseDups
  constructor
  · rw [ofLog_append_highlight]
    dsimp only
    refine ⟨hf.agrees.timing_eq, ?_, ?_, (fun h => by cases h), fun _ => ?_⟩
    · simp [htouched]
    · simp [Deadlines.cancel]
    · exact hf.agrees.tracked (by simp [hactive])
  · refine hf.lawful.append_singleton fun state functions heq => ?_
    cases heq
    exact ⟨by rw [hactive]; rfl, fun _ => hnow, (fun h => by cases h), fun _ => htouched⟩

/-- An analysis comes back, and the files are no longer edited. -/
theorem installed (hf : Follows timing path log e) (reason : String) (files : Contents)
    (result : AnalysisResult) (store : Store) (stale : List String) (nodes edges : Nat) :
    Follows timing path
      (log ++ ((.heard (.analyzed reason files (.ok result)) ::
        .event (.analysisCompleted nodes edges result.fromCache) ::
        e.editedFiles.map fun file => .event (.fileState file .unchanged []) :
          List Occurrence).map (now, ·)))
      (e.onInstalled now store stale) := by
  let begun : List Occurrence := [.heard (.analyzed reason files (.ok result)),
    .event (.analysisCompleted nodes edges result.fromCache)]
  have hbegun : ∀ o ∈ begun, o.concerns path = false := by simp [begun, Occurrence.concerns]
  have hstate : ofLog path (log ++ begun.map (now, ·)) = ofLog path log :=
    ofLog_append_of_not_concerns hbegun
  have hlast : lastHeard? (log ++ begun.map (now, ·)) = some (.analyzed reason files (.ok result)) := by
    simp [begun, lastHeard?, Occurrence.message?]
  have hedited := hf.agrees.mem_editedFiles
  obtain ⟨hlawful, hafter⟩ := (hf.lawful.append_of_not_concerns hbegun).append_unchanged
    (nodup_editedFiles e) (fun hmem => hstate ▸ hedited.mp hmem) hlast
  have hlog : log ++ ((.heard (.analyzed reason files (.ok result)) ::
        .event (.analysisCompleted nodes edges result.fromCache) ::
        e.editedFiles.map fun file => .event (.fileState file .unchanged []) :
          List Occurrence).map (now, ·)) =
      log ++ begun.map (now, ·) ++
        e.editedFiles.map fun file => (now, .event (.fileState file .unchanged [])) := by
    simp [begun]
  rw [hlog]
  refine ⟨?_, hlawful⟩
  rw [hafter, hstate]
  have hnone : Agrees timing path none (e.onInstalled now store stale) :=
    .none hf.agrees.timing_eq (by simp [Engine.onInstalled])
      (by simp [Engine.onInstalled, Deadlines.empty])
  split
  next => exact hnone
  next hnot =>
    -- A file that is not edited has no highlight before.
    have hunchanged : (ofLog path log).state = .unchanged := by simpa [hedited] using hnot
    refine ⟨hnone.timing_eq, ?_, ?_, hf.agrees.touched_eq, fun hne => absurd hunchanged hne⟩
    · rw [hnone.activity_eq, hunchanged]
      rfl
    · rw [hnone.editing_eq, hunchanged]
      rfl

theorem deed [Parsers] (hf : Follows timing path log e) (h : e.Deed graphs read now seen e') :
    Follows timing path (log ++ seen.map (now, ·)) e' := by
  have hupdated {file content : String} {store : Store} {patch : Option Patch}
      (hupdate : e.store.localUpdate file content = .ok (store, patch))
      (htracked : e.store.isTracked path = true) : store.isTracked path = true :=
    Store.isTracked_update htracked (Store.apply_of_localUpdate hupdate)
  cases h with
  | aside seen debounce running queued hseen =>
    exact hf.frame (fun o ho => Occurrence.concerns_eq_false_of_isAside (hseen o ho) path) rfl rfl rfl id
  | forgotten file hempty =>
    by_cases hfile : file = path
    · exact hfile ▸ hf.forgotten
    · refine hf.frame (by simp [Occurrence.concerns, hfile]) rfl ?_ ?_ fun htracked => ?_
      · simp [Engine.without, Std.ExtTreeMap.getElem?_erase, hfile]
      · simp [Engine.without, Deadlines.cancel, Std.ExtTreeMap.getElem?_erase, hfile]
      · exact Store.isTracked_removeFile htracked hfile
  | deleted file hempty =>
    by_cases hfile : file = path
    · subst hfile
      exact hf.deleted _
    · refine hf.frame (by simp [Occurrence.concerns, hfile]) rfl ?_ ?_ fun htracked => ?_
      · simp [Engine.without, Engine.publish, Std.ExtTreeMap.getElem?_erase, hfile]
      · simp [Engine.without, Engine.publish, Deadlines.cancel, Std.ExtTreeMap.getElem?_erase, hfile]
      · exact Store.isTracked_removeFile htracked hfile
  | refreshed file content store patch hread hupdate hempty =>
    exact hf.frame (List.forall_mem_nil _) rfl rfl rfl (hupdated hupdate)
  | patched file content store patch hread hupdate hempty =>
    by_cases hfile : file = path
    · subst hfile
      exact hf.patched patch (Store.isTracked_of_localUpdate hupdate)
    · refine hf.frame (by simp [Occurrence.concerns, hfile]) rfl ?_ ?_ (hupdated hupdate)
      · simp [Engine.onPatched, Std.ExtTreeMap.getElem?_insert, hfile]
      · simp [Engine.onPatched, Deadlines.schedule, Std.ExtTreeMap.getElem?_insert, hfile]
  | ignored file content store hread hupdate hanalyzed =>
    exact hf.frame (List.forall_mem_nil _) rfl rfl rfl (hupdated hupdate)
  | abandoned file content store hread hupdate hanalyzed =>
    by_cases hfile : file = path
    · subst hfile
      -- A file with a highlight could have been patched.
      have hunchanged : (ofLog file log).state = .unchanged := by
        by_contra hstate
        obtain ⟨hlanguage, htracked⟩ := hf.agrees.tracked hstate
        rw [Store.isTracked_eq_false_of_localUpdate hupdate hlanguage] at htracked
        cases htracked
      refine hf.frame (List.forall_mem_nil _) rfl ?_ ?_ (hupdated hupdate)
      · simp [hf.agrees.activity_eq, hunchanged]
      · simp [hf.agrees.editing_eq, hunchanged, Deadlines.cancel]
    · refine hf.frame (List.forall_mem_nil _) rfl ?_ ?_ (hupdated hupdate)
      · simp [Std.ExtTreeMap.getElem?_erase, hfile]
      · simp [Deadlines.cancel, Std.ExtTreeMap.getElem?_erase, hfile]
  | calmed file hdue =>
    by_cases hfile : file = path
    · subst hfile
      exact hf.calmed hdue
    · refine hf.frame (by simp [Occurrence.concerns, hfile]) rfl ?_ ?_ id
      · simp [Std.ExtTreeMap.getElem?_insert, hfile]
      · simp [Deadlines.cancel, Std.ExtTreeMap.getElem?_erase, hfile]
  | flushed => exact hf.frame (List.forall_mem_nil _) rfl rfl rfl id
  | requested => exact hf.frame (by simp [Occurrence.concerns]) rfl rfl rfl id
  | unclassified entries hids => exact hf.frame (List.forall_mem_nil _) rfl rfl rfl id
  | classified entries hids => exact hf.frame (by simp [Occurrence.concerns]) rfl rfl rfl id
  | installed reason files result store stale hgraph hinstall => exact hf.installed ..

end Follows

end Highlight

/-! ## Runs -/

namespace Loop

variable {graphs : Contents → Graph → Prop} {timing : Timing} {s : Store} {l : Loop}
  {rounds : List Round}

/-- In every run, the highlights that are reported of a file follow the protocol, and the file has a
deadline for being shown as changed exactly while it is shown as active. -/
theorem permits_of_fileState [Parsers] (h : Run graphs ⟨.start timing s, []⟩ rounds l) (path : String) :
    (∀ before now state functions,
        before ++ [(now, .event (.fileState path state functions))] <+: log rounds →
          Highlight.Permits timing.editingInactivity path before now state functions) ∧
      (path ∈ l.engine.editing.times ↔
        l.engine.activity[path]?.map (·.state) = some .active) := by
  have hfollows : Highlight.Follows timing path (log rounds) l.engine := by
    refine h.preserves (fun log e read now seen e' hf hdeed => hf.deed hdeed) ⟨?_, .nil⟩
    exact .none rfl (by simp [Engine.start]) (by simp [Engine.start, Deadlines.empty])
  refine ⟨hfollows.lawful, ?_⟩
  rw [Std.ExtTreeMap.mem_iff_isSome_getElem?, hfollows.agrees.editing_eq,
    hfollows.agrees.activity_eq]
  cases (Highlight.ofLog path (log rounds)).state <;> simp

set_option maxRecDepth 100000 in
/-- A file is created, patched into the graph and left alone until it is shown as changed. -/
theorem permits_of_fileState_changed :
    ∃ rounds l before, Run textualGraphs ⟨.start ⟨500, 200, 5000, 100000⟩ .empty, []⟩ rounds l ∧
      rounds.map (·.message) = [.change ⟨"a.py", .create⟩, .deadline, .deadline] ∧
      before ++ [(5200, .event (.fileState "a.py" .changed ["g"]))] <+: log rounds ∧
      Highlight.Permits 5000 "a.py" before 5200 .changed ["g"] ∧
      l.engine.activity["a.py"]? = some ⟨.changed, ["g"]⟩ ∧
      ("a.py" ∈ l.engine.editing.times ↔
        l.engine.activity["a.py"]?.map (·.state) = some .active) := by
  have hcomputed : ((hears ⟨.start ⟨500, 200, 5000, 100000⟩ .empty, []⟩
      (fun _ => some "OpenAI().chat()\ndef g(): pass")
      [(0, .change ⟨"a.py", .create⟩), (200, .deadline)]).bind fun l =>
      (l.hear 5200 (fun _ => none) .deadline).map fun m =>
        ((l.engine.step (fun _ => none) 5200 .deadline).effects.map Effect.event?,
          m.engine.activity["a.py"]?)) =
      some ([some (.fileState "a.py" .changed ["g"])], some ⟨.changed, ["g"]⟩) := by
    decide +kernel
  obtain ⟨l, hl, hcomputed⟩ := Option.bind_eq_some_iff.mp hcomputed
  obtain ⟨m, hm, hcomputed⟩ := Option.map_eq_some_iff.mp hcomputed
  obtain ⟨heffects, hactivity⟩ := Prod.mk.inj hcomputed
  obtain ⟨rounds, hrun, hmessages⟩ := exists_run_of_hears textualGraphs hl (by
    simp only [List.forall_mem_cons]
    exact ⟨.change _, .deadline, nofun⟩)
  have hall := hrun.snoc (takes_of_hear textualGraphs hm .deadline)
  obtain ⟨effect, heffects, hevent⟩ := List.map_eq_singleton_iff.mp heffects
  obtain rfl : effect = .emit (.fileState "a.py" .changed ["g"]) := by
    cases effect with
    | emit event => exact congrArg Effect.emit (Option.some.inj hevent)
    | read | start => cases hevent
  obtain ⟨hpermits, hediting⟩ := permits_of_fileState hall "a.py"
  have hlog : log rounds ++ [(5200, .heard .deadline)] ++
      [(5200, .event (.fileState "a.py" .changed ["g"]))] <+: log (rounds ++
        [⟨5200, fun _ => none, .deadline, l.engine.step (fun _ => none) 5200 .deadline⟩]) := by
    rw [log_append_singleton, Round.log, heffects]
    simp
  exact ⟨_, m, _, hall, by rw [List.map_append, hmessages]; rfl, hlog, hpermits _ _ _ _ hlog, hactivity,
    hediting⟩

end Loop

end Flowgraph
