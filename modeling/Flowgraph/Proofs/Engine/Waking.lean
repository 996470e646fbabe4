import Flowgraph.Proofs.Batcher
import Flowgraph.Proofs.Deadlines.Expiry
import Flowgraph.Proofs.Engine.Turns
import Flowgraph.Proofs.Store.Updating
import Flowgraph.Syntax.Parsers
import Mathlib.Data.List.ReduceOption

/-!
# Wakes

What the engine waits for once it has handled all that was due, and what can keep it from handling that.
-/

namespace Flowgraph

namespace Store

variable {s : Store} {path content : String}

/-- The imports of a text can be read. -/
def IsReadable (path content : String) : Prop :=
  ∃ bindings, Imports.imports (Language.ofPath path) content = .ok bindings

/-- The graph has nodes of a file without anything known of its functions, so that updates of the file
are passed over. -/
def Declines (s : Store) (path : String) : Prop :=
  s.graph.hasFile path = true ∧ s.callGraphs[path]? = none

theorem exists_ofFile_iff {calls : CallGraph} :
    (∃ entry, IndexEntry.ofFile path content calls = .ok entry) ↔ IsReadable path content :=
  Outcome.exists_map_eq_ok

theorem isReadable_of_not_isSupported (h : (Language.ofPath path).isSupported = false) :
    IsReadable path content := by
  rw [IsReadable]
  revert h
  cases Language.ofPath path <;> simp [Imports.imports, Language.isSupported]

theorem exists_localUpdate_iff [Parsers] :
    (∃ result, s.localUpdate path content = .ok result) ↔ s.Declines path ∨ IsReadable path content := by
  constructor
  · rintro ⟨⟨t, patch⟩, hresult⟩
    cases updates_of_localUpdate hresult with
    | unsupported hlanguage => exact .inr (isReadable_of_not_isSupported hlanguage)
    | refused hfile hdiff =>
      refine .inl ⟨hfile, Option.eq_none_iff_forall_ne_some.mpr fun old hold => ?_⟩
      obtain ⟨u, hu⟩ := Graph.exists_applyDiff_diff _ old (extract content path) path
      exact hdiff old hold u hu
    | remembered entry hlanguage hfile hworkflow hentry => exact .inr (exists_ofFile_iff.mp ⟨entry, hentry⟩)
    | patched entry old u hlanguage hfile hold hdiff hentry =>
      exact .inr (exists_ofFile_iff.mp ⟨entry, hentry⟩)
    | joined entry hlanguage hfile hworkflow hentry => exact .inr (exists_ofFile_iff.mp ⟨entry, hentry⟩)
  · rintro (⟨hfile, huntracked⟩ | hreadable)
    · have hplan : s.plan path content (extract content path) = .refuse :=
        plan_eq_refuse_iff.mpr ⟨hfile, fun old hold => by rw [huntracked] at hold; cases hold⟩
      simp only [localUpdate, hplan]
      split <;> exact ⟨_, rfl⟩
    · obtain ⟨entry, hentry⟩ := exists_ofFile_iff.mpr hreadable
      obtain ⟨t, ht⟩ := exists_apply_update (s := s) hentry
      obtain ⟨result, hresult, -⟩ := Outcome.map_eq_ok.mp ht
      exact ⟨result, hresult⟩

end Store

/-- What is left of a batcher has not come. -/
theorem Batcher.lt_of_deadline_later {b : Batcher} {now deadline : Nat}
    (h : (b.later now).deadline = some deadline) : now < deadline := by
  unfold later at h
  split at h
  next => cases h
  next hdue => exact Nat.lt_of_not_le fun hle => hdue (isDue_iff.mpr ⟨deadline, h, hle⟩)

namespace Engine

variable {e : Engine} {read : String → Option String} {now next : Nat} {path : String} {s : Store}
  {d : Deadlines} {paths paths' : List String} {t : Turn}

/-! ## Whether it fails -/

section Parsers

variable [Parsers]

theorem exists_reread_iff : (∃ t, reread read s path = .ok t) ↔
    ∀ content, read path = some content → s.Declines path ∨ Store.IsReadable path content := by
  rw [reread]
  cases read path with
  | none => exact iff_of_true ⟨s, rfl⟩ (by simp)
  | some content =>
    simp only [Store.Edit.apply, Outcome.exists_map_eq_ok, Store.exists_localUpdate_iff,
      Option.some.injEq, forall_eq']

theorem updateFile_failure_iff :
    (e.updateFile read now path).failure = none ↔ ∃ t, reread read e.store path = .ok t := by
  constructor
  · intro h
    obtain ⟨t, ht, -⟩ := Outcome.foldlM_cons_eq_ok.mp (settles_updateFile h).store_eq
    exact ⟨t, ht⟩
  · rintro ⟨t, ht⟩
    rw [updateFile]
    rw [reread] at ht
    cases hread : read path with
    | none => rfl
    | some content =>
      simp only [hread] at ht ⊢
      obtain ⟨⟨store, patch⟩, hupdate, -⟩ := Outcome.map_eq_ok.mp ht
      rw [hupdate]
      have hfollowed : Settles read _ _ [] (followUpdate now path patch { e with store }) :=
        settles_followUpdate patch { e with store }
      exact hfollowed.failure_eq

theorem Settles.forEach_updateFile_failure_iff (ht : Settles read s d paths t) :
    (t.forEach paths' (updateFile read now)).failure = none ↔
      ∃ u, paths'.foldlM (reread read) t.engine.store = .ok u := by
  induction paths' generalizing t paths with
  | nil => exact iff_of_true ht.failure_eq ⟨_, rfl⟩
  | cons path paths' ih =>
    constructor
    · intro h
      have hall := (ht.forEach_updateFile h).store_eq
      rw [List.foldlM_append, ht.store_eq] at hall
      exact ⟨_, hall⟩
    · rintro ⟨u, hu⟩
      obtain ⟨v, hv, hrest⟩ := Outcome.foldlM_cons_eq_ok.mp hu
      have hfirst : (t.engine.updateFile read now path).failure = none :=
        updateFile_failure_iff.mpr ⟨v, hv⟩
      have hupdate := settles_updateFile hfirst
      -- The store after the file is the one that the update of the file gives.
      obtain ⟨v', hv', heq⟩ := Outcome.foldlM_cons_eq_ok.mp hupdate.store_eq
      cases hv.symm.trans hv'
      cases heq
      refine (ih (ht.andThen hupdate)).mpr ⟨u, ?_⟩
      rw [Turn.andThen_of_failure_eq_none ht.failure_eq]
      exact hrest

theorem wake_failure_iff : (e.wake read now).failure = none ↔
    ∃ t, (e.debounce.due now).foldlM (reread read) e.store = .ok t := by
  constructor
  · intro h
    exact ⟨_, (settles_wake h).store_eq⟩
  · intro h
    have hstart : Settles read e.store (e.debounce.later now) []
        (.quiet { e with debounce := e.debounce.later now }) := settles_quiet rfl rfl
    have hsettled := settles_handleSettled (hstart.forEach_updateFile_failure_iff.mpr h)
    exact ((hsettled.andThen_of_forall settles_handleInactive).andThen_of_forall
      settles_handleBatch).failure_eq

end Parsers

/-! ## What is left -/

theorem nextDeadline?_cases (h : e.nextDeadline? = some next) :
    e.debounce.next? = some next ∨ e.editing.next? = some next ∨ e.batcher.deadline = some next := by
  have hmem := (List.min?_eq_some_iff.mp h).1
  simpa [List.reduceOption_mem_iff, eq_comm] using hmem

theorem editing_forEach_setState (t : Turn) (state : EditState) :
    (t.forEach paths fun path e => e.setState path state []).engine.editing = t.engine.editing := by
  induction paths generalizing t with
  | nil => rfl
  | cons path paths ih =>
    refine (ih _).trans ?_
    simp only [Turn.andThen]
    split <;> rfl

theorem editing_handleInactive : (e.handleInactive now).engine.editing = e.editing.later now :=
  editing_forEach_setState _ .changed

theorem handleBatch_engine :
    (e.handleBatch now).engine = { e with batcher := e.batcher.later now } := by
  rw [handleBatch]
  split
  · rfl
  · simp only
    split <;> rfl

theorem editing_handleBatch : (e.handleBatch now).engine.editing = e.editing := by
  rw [handleBatch_engine]

theorem batcher_handleBatch : (e.handleBatch now).engine.batcher = e.batcher.later now := by
  rw [handleBatch_engine]

theorem wake_engine [Parsers] (h : (e.wake read now).failure = none) : (e.wake read now).engine =
    (((e.handleSettled read now).engine.handleInactive now).engine.handleBatch now).engine := by
  have hinactive : ((e.handleSettled read now).andThen (handleInactive now)).failure = none :=
    Turn.failure_eq_none_of_andThen h
  have hsettled : (e.handleSettled read now).failure = none :=
    Turn.failure_eq_none_of_andThen hinactive
  rw [wake, Turn.andThen_of_failure_eq_none hinactive, Turn.andThen_of_failure_eq_none hsettled]

/-- Once a wake has been through, nothing is due any longer in any of the three queues: what the updates
have put into the other two, even if it is due at once, is handled behind them. -/
theorem lt_of_nextDeadline?_wake [Parsers] (h : (e.wake read now).failure = none)
    (hnext : (e.wake read now).engine.nextDeadline? = some next) : now < next := by
  rcases nextDeadline?_cases hnext with hfirst | hfirst | hfirst
  · rw [(settles_wake h).debounce_eq] at hfirst
    exact Deadlines.lt_of_next?_later hfirst
  · rw [wake_engine h, editing_handleBatch, editing_handleInactive] at hfirst
    exact Deadlines.lt_of_next?_later hfirst
  · rw [wake_engine h, batcher_handleBatch] at hfirst
    exact Batcher.lt_of_deadline_later hfirst

/-- The engine never wakes twice for one deadline. Unless a wake fails, what the engine waits for after it
is still to come, with windows of any length and whether files can be read or not. It fails just where one
of the files that are due, as the updates of those before it have left the store, has a text of which the
imports cannot be read and is not passed over. A clock that overflows, as it can with windows near the
longest duration that it knows, is left out: times have no bound here. -/
theorem lt_deadline_of_wake [Parsers] (e : Engine) (read : String → Option String) (now : Nat) :
    let t := e.wake read now
    (t.failure = none → ∀ next, t.engine.nextDeadline? = some next → now < next) ∧
    (t.failure = none ↔ ∀ before path after, e.debounce.due now = before ++ path :: after →
      ∀ s, before.foldlM (reread read) e.store = .ok s →
        ∀ content, read path = some content → s.Declines path ∨ Store.IsReadable path content) := by
  refine ⟨fun h next hnext => lt_of_nextDeadline?_wake h hnext, ?_⟩
  rw [wake_failure_iff, Outcome.exists_foldlM_eq_ok_iff]
  simp only [exists_reread_iff]

set_option maxRecDepth 100000 in
/-- Without any windows, a file that comes in has its highlight and its batch due at the same time, and
both are handled in the same wake. -/
theorem lt_deadline_of_wake_of_no_windows :
    let debounce := ((Deadlines.empty.schedule "a.py" 5).schedule "b.rs" 5).schedule "c.py" 9
    let e : Engine := { start ⟨0, 0, 0, 0⟩ .empty with debounce }
    let read (path : String) : Option String :=
      if path = "a.py" then some "OpenAI().chat()\ndef g(): pass" else none
    let t := e.wake read 5
    t.failure = none ∧ t.engine.activity["a.py"]?.map (·.state) = some .changed ∧
      t.jobs.length = 1 ∧ t.engine.nextDeadline? = some 9 ∧ 5 < 9 := by
  intro debounce e read t
  have hfailure : t.failure = none := by
    refine (lt_deadline_of_wake e read 5).2.mpr fun before path after _ s _ content hcontent => .inr ?_
    obtain ⟨rfl, -⟩ := Option.ite_none_right_eq_some.mp hcontent
    exact ⟨_, rfl⟩
  have hcomputed : t.engine.activity["a.py"]?.map (·.state) = some .changed ∧ t.jobs.length = 1 ∧
      t.engine.nextDeadline? = some 9 := by decide +kernel
  obtain ⟨hchanged, hjobs, hnext⟩ := hcomputed
  exact ⟨hfailure, hchanged, hjobs, hnext, (lt_deadline_of_wake e read 5).1 hfailure 9 hnext⟩

/-- A use declaration has a closing brace in front of an opening one. -/
theorem exists_wake_failure : ∃ (e : Engine) (read : String → Option String) (now : Nat),
    e.nextDeadline? = some now ∧ (e.wake read now).failure ≠ none := by
  let debounce := Deadlines.empty.schedule "a.rs" 5
  let e : Engine := { start ⟨0, 0, 0, 0⟩ .empty with debounce }
  refine ⟨e, fun _ => some "use \x7d\x7b;", 5, by decide +kernel, fun h => ?_⟩
  have hdue : e.debounce.due 5 = ["a.rs"] := by decide +kernel
  obtain ⟨t, ht⟩ := wake_failure_iff.mp h
  rw [hdue] at ht
  obtain ⟨u, hu, -⟩ := Outcome.foldlM_cons_eq_ok.mp ht
  rcases exists_reread_iff.mp ⟨u, hu⟩ _ rfl with ⟨hfile, -⟩ | ⟨bindings, hread⟩
  · cases hfile
  · have hfails : Imports.imports .rust "use \x7d\x7b;" = .error (.bracesOutOfOrder "\x7d\x7b") := by
      decide +kernel
    cases hfails.symm.trans hread

end Engine

end Flowgraph
