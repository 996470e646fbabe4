import Flowgraph.Batcher
import Flowgraph.Proofs.History
import Flowgraph.Proofs.Ordered
import Mathlib.Data.List.Induction
import Mathlib.Data.List.Nodup

/-!
# Nothing lost, nothing twice

What a batcher holds, since when it is open and what it hands out, told by the operations that it has
gone through: every node that is put into it is in the next batch, unless its file has been forgotten.
-/

namespace Flowgraph

/-! ## Nodes of a batch -/

namespace PendingBatch

variable {batch : PendingBatch} {path file id : String}

theorem mem_getD_insert {ids : Std.ExtTreeSet String} :
    id ∈ (batch.insert path ids).getD file ∅ ↔
      if path = file then id ∈ ids else id ∈ batch.getD file ∅ := by
  simp only [Std.ExtTreeMap.getD_insert, Std.LawfulEqCmp.compare_eq_iff_eq]
  split <;> rfl

theorem exists_getElem?_of_mem_getD (h : id ∈ batch.getD file ∅) :
    ∃ ids, batch[file]? = some ids ∧ id ∈ ids := by
  rw [Std.ExtTreeMap.getD_eq_getD_getElem?] at h
  cases hids : batch[file]? with
  | none => simp [hids] at h
  | some ids => exact ⟨ids, rfl, by simpa [hids] using h⟩

/-- The nodes of a batch, each with its file. -/
def nodes (batch : PendingBatch) : List StringPair :=
  batch.toList.flatMap fun f => f.2.toList.map fun id => (f.1, id)

theorem mem_nodes : (file, id) ∈ nodes batch ↔ id ∈ batch.getD file ∅ := by
  simp only [nodes, List.mem_flatMap, List.mem_map, Std.ExtTreeSet.mem_toList, Prod.mk.injEq,
    Prod.exists, Std.ExtTreeMap.mem_toList_iff_getElem?_eq_some]
  constructor
  · rintro ⟨file, ids, hids, id, hid, rfl, rfl⟩
    simpa [Std.ExtTreeMap.getD_eq_getD_getElem?, hids] using hid
  · intro hid
    obtain ⟨ids, hids, hid⟩ := exists_getElem?_of_mem_getD hid
    exact ⟨file, ids, hids, id, hid, rfl, rfl⟩

/-- No node stands twice in a batch, under one file or under two. -/
theorem nodup_nodes (batch : PendingBatch) : (nodes batch).Nodup := by
  refine List.nodup_flatMap.mpr ⟨fun f _ => ?_, ?_⟩
  · exact (OrderedSet.nodup_toList f.2).map fun _ _ heq => (Prod.mk.inj heq).2
  · refine Std.ExtTreeMap.distinct_keys_toList.imp fun hkeys p hp hp' => ?_
    obtain ⟨id, -, rfl⟩ := List.mem_map.mp hp
    obtain ⟨id', -, heq⟩ := List.mem_map.mp hp'
    exact hkeys (Std.LawfulEqCmp.compare_eq_iff_eq.mpr (Prod.mk.inj heq).1.symm)

end PendingBatch

namespace Batcher

variable {b : Batcher} {path file id : String} {ids : List String} {now : Nat} {batch : PendingBatch}

/-! ## One operation -/

theorem mem_pending_enqueue : id ∈ (b.enqueue path ids now).pending.getD file ∅ ↔
    id ∈ b.pending.getD file ∅ ∨ path = file ∧ id ∈ ids := by
  unfold enqueue
  split
  next hnone => simp [List.isEmpty_iff.mp hnone]
  next =>
    rw [PendingBatch.mem_getD_insert]
    split
    next hfile =>
      subst hfile
      simp only [Std.ExtTreeSet.mem_insertMany_list, List.contains_iff_mem, true_and]
    next hfile => simp only [hfile, false_and, or_false]

theorem mem_pending_foldl_enqueue {files : List (String × Std.ExtTreeSet String)} :
    id ∈ (files.foldl (fun b f => b.enqueue f.1 f.2.toList now) b).pending.getD file ∅ ↔
      id ∈ b.pending.getD file ∅ ∨ ∃ f ∈ files, f.1 = file ∧ id ∈ f.2 := by
  induction files generalizing b with
  | nil => simp
  | cons f files ih =>
    simp only [List.foldl_cons, ih, mem_pending_enqueue, List.mem_cons, exists_eq_or_imp,
      Std.ExtTreeSet.mem_toList, or_assoc]

theorem mem_pending_forget :
    id ∈ (b.forget path).pending.getD file ∅ ↔ path ≠ file ∧ id ∈ b.pending.getD file ∅ := by
  simp only [forget, Std.ExtTreeMap.getD_erase, Std.LawfulEqCmp.compare_eq_iff_eq]
  split
  next hfile => simp [hfile]
  next hfile => simp [hfile]

theorem due?_eq_some : b.due? now = some batch ↔ b.isDue now = true ∧ b.pending = batch := by
  simp [due?]

theorem isDue_iff : b.isDue now = true ↔ ∃ deadline, b.deadline = some deadline ∧ deadline ≤ now := by
  simp [isDue, Option.any_eq_true]

/-! ## Runs -/

/-- What is done to a batcher. -/
inductive Operation where
  | enqueue (path : String) (ids : List String) (now : Nat)
  | forget (path : String)
  | takeDue (now : Nat)

def operate (b : Batcher) : Operation → Batcher
  | .enqueue path ids now => b.enqueue path ids now
  | .forget path => b.forget path
  | .takeDue now => b.later now

/-- An operation with the batcher that it is done to. -/
structure Step where
  before : Batcher
  operation : Operation

namespace Step

def after (s : Step) : Batcher := s.before.operate s.operation

/-- The batch that is handed out, if there is one. -/
def batch? (s : Step) : Option PendingBatch :=
  match s.operation with
  | .takeDue now => s.before.due? now
  | _ => none

/-- Whether the first nodes are put into an empty batcher. -/
def Opens (now : Nat) (s : Step) : Prop :=
  s.before.isEmpty = true ∧ ∃ path ids, s.operation = .enqueue path ids now ∧ ids ≠ []

/-- Whether the batcher is left empty. -/
def Empties (s : Step) : Prop := s.after.isEmpty = true

/-- Whether a node of a file is put in. -/
def Enqueues (file id : String) (s : Step) : Prop :=
  ∃ ids now, s.operation = .enqueue file ids now ∧ id ∈ ids

/-- Whether no node of a file is left: the file is forgotten, or a batch handed out. -/
def Clears (file : String) (s : Step) : Prop := s.operation = .forget file ∨ s.batch?.isSome = true

end Step

/-- The batcher after one operation after another. -/
def run (b : Batcher) (operations : List Operation) : Batcher := operations.foldl operate b

/-- The steps of a run. -/
def steps (b : Batcher) : List Operation → List Step
  | [] => []
  | operation :: operations => ⟨b, operation⟩ :: steps (b.operate operation) operations

variable {operations : List Operation} {operation : Operation}

theorem run_append_singleton :
    b.run (operations ++ [operation]) = (b.run operations).operate operation := by
  simp [run]

theorem steps_append_singleton :
    b.steps (operations ++ [operation]) = b.steps operations ++ [⟨b.run operations, operation⟩] := by
  induction operations generalizing b with
  | nil => rfl
  | cons first operations ih => simp only [List.cons_append, steps, ih, run, List.foldl_cons]

/-- A step of a run parts its operations. -/
theorem exists_of_steps_eq_append_cons {earlier later : List Step} {s : Step}
    (h : b.steps operations = earlier ++ s :: later) :
    ∃ before after, operations = before ++ s.operation :: after ∧ earlier = b.steps before ∧
      s.before = b.run before ∧ later = s.after.steps after := by
  induction operations generalizing b earlier with
  | nil => exact absurd h.symm (List.append_ne_nil_of_right_ne_nil _ (List.cons_ne_nil _ _))
  | cons first operations ih =>
    cases earlier with
    | nil =>
      obtain ⟨rfl, rfl⟩ := List.cons.inj h
      exact ⟨[], operations, rfl, rfl, rfl, rfl⟩
    | cons t earlier =>
      obtain ⟨rfl, hrest⟩ := List.cons.inj h
      obtain ⟨before, after, rfl, rfl, hbefore, hlater⟩ := ih hrest
      exact ⟨first :: before, after, rfl, rfl, hbefore, hlater⟩

/-! ## What is waiting -/

theorem window_operate (b : Batcher) (operation : Operation) :
    (b.operate operation).window = b.window := by
  cases operation with
  | enqueue path ids now =>
    show (b.enqueue path ids now).window = b.window
    unfold enqueue
    split <;> rfl
  | forget path => rfl
  | takeDue now =>
    show (b.later now).window = b.window
    unfold later
    split <;> rfl

theorem window_run (b : Batcher) (operations : List Operation) :
    (b.run operations).window = b.window := by
  induction operations using List.reverseRecOn with
  | nil => rfl
  | append_singleton operations operation ih => rw [run_append_singleton, window_operate, ih]

/-- An operation puts nodes in, clears a file, or leaves a node as it is. -/
theorem mem_pending_operate : id ∈ (b.operate operation).pending.getD file ∅ ↔
    Step.Enqueues file id ⟨b, operation⟩ ∨
      id ∈ b.pending.getD file ∅ ∧ ¬ Step.Clears file ⟨b, operation⟩ := by
  cases operation with
  | enqueue path ids now =>
    simp only [operate, mem_pending_enqueue, Step.Enqueues, Step.Clears, Step.batch?]
    constructor
    · rintro (hwaits | ⟨rfl, hid⟩)
      · exact .inr ⟨hwaits, by simp⟩
      · exact .inl ⟨ids, now, rfl, hid⟩
    · rintro (⟨_, _, heq, hid⟩ | ⟨hwaits, -⟩)
      · cases heq
        exact .inr ⟨rfl, hid⟩
      · exact .inl hwaits
  | forget path =>
    simp [operate, mem_pending_forget, Step.Enqueues, Step.Clears, Step.batch?, and_comm]
  | takeDue now =>
    by_cases hdue : b.isDue now = true
    · simp [operate, later, hdue, Step.Enqueues, Step.Clears, Step.batch?, due?, empty]
    · simp [operate, later, hdue, Step.Enqueues, Step.Clears, Step.batch?, due?]

/-- A node waits from when it is put in until the batch or the file goes. -/
theorem mem_pending_run (window : Nat) (operations : List Operation) :
    id ∈ ((empty window).run operations).pending.getD file ∅ ↔
      Since (Step.Enqueues file id) (Step.Clears file) ((empty window).steps operations) := by
  induction operations using List.reverseRecOn with
  | nil => simp [run, empty, steps, not_since_nil]
  | append_singleton operations operation ih =>
    rw [run_append_singleton, steps_append_singleton, since_append_singleton, ← ih]
    generalize (empty window).run operations = b
    exact mem_pending_operate

/-! ## When it is due -/

/-- Whether a batcher has a deadline just while it holds something. -/
def IsTimed (b : Batcher) : Prop := b.deadline.isSome = !b.isEmpty

theorem isTimed_empty (window : Nat) : (empty window).IsTimed := by simp [IsTimed, empty, isEmpty]

theorem isTimed_operate (hb : b.IsTimed) : (b.operate operation).IsTimed := by
  cases operation with
  | enqueue path ids now =>
    show (b.enqueue path ids now).IsTimed
    unfold enqueue
    split
    · exact hb
    · simp [IsTimed, isEmpty]
  | forget path =>
    show (b.forget path).IsTimed
    unfold IsTimed forget
    dsimp only [isEmpty]
    split
    next hempty => simp [hempty]
    next hfull =>
      -- What is left without the file has been there with it.
      have hbefore : b.isEmpty = false := by
        refine Bool.eq_false_iff.mpr fun hempty => hfull ?_
        rw [Std.ExtTreeMap.isEmpty_iff.mp hempty]
        simp
      rw [hb, hbefore, Bool.eq_false_iff.mpr hfull]
  | takeDue now =>
    show (b.later now).IsTimed
    unfold later
    split
    · exact isTimed_empty b.window
    · exact hb

theorem isTimed_run (window : Nat) (operations : List Operation) :
    ((empty window).run operations).IsTimed := by
  induction operations using List.reverseRecOn with
  | nil => exact isTimed_empty window
  | append_singleton operations operation ih =>
    rw [run_append_singleton]
    exact isTimed_operate ih

theorem IsTimed.deadline_eq_none (hb : b.IsTimed) : b.deadline = none ↔ b.isEmpty = true := by
  rw [← Option.isNone_iff_eq_none, ← Option.not_isSome, hb, Bool.not_not]

/-- The deadline is set by the first nodes, stays where it is, and goes when nothing is left. -/
theorem deadline_operate {deadline : Nat} (hb : b.IsTimed) :
    (b.operate operation).deadline = some deadline ↔
      (∃ opened, Step.Opens opened ⟨b, operation⟩ ∧ deadline = opened + b.window) ∨
      b.deadline = some deadline ∧ ¬ Step.Empties ⟨b, operation⟩ := by
  have hfull (hdeadline : b.deadline = some deadline) : ¬ b.isEmpty = true := by
    rw [← hb.deadline_eq_none, hdeadline]
    exact Option.some_ne_none deadline
  cases operation with
  | enqueue path ids now =>
    by_cases hids : ids = []
    · have hsame : b.operate (.enqueue path ids now) = b := by simp [operate, enqueue, hids]
      constructor
      · intro hdeadline
        rw [hsame] at hdeadline
        exact .inr ⟨hdeadline, by simpa [Step.Empties, Step.after, hsame] using hfull hdeadline⟩
      · rintro (⟨_, ⟨-, _, _, heq, hne⟩, -⟩ | ⟨hdeadline, -⟩)
        · cases heq
          exact absurd hids hne
        · rw [hsame, hdeadline]
    · have hleft : ¬ Step.Empties ⟨b, .enqueue path ids now⟩ := by
        simp [Step.Empties, Step.after, operate, enqueue, hids, isEmpty]
      have hset : (b.operate (.enqueue path ids now)).deadline
          = some (b.deadline.getD (now + b.window)) := by simp [operate, enqueue, hids]
      rw [hset, Option.some.injEq]
      -- Only a batcher without a deadline is empty, so that the nodes open it.
      cases hbefore : b.deadline with
      | none =>
        constructor
        · intro hdeadline
          exact .inl ⟨now, ⟨hb.deadline_eq_none.mp hbefore, path, ids, rfl, hids⟩, hdeadline.symm⟩
        · rintro (⟨_, ⟨-, _, _, heq, -⟩, rfl⟩ | ⟨hdeadline, -⟩)
          · cases heq
            rfl
          · cases hdeadline
      | some before =>
        constructor
        · intro hdeadline
          exact .inr ⟨congrArg some hdeadline, hleft⟩
        · rintro (⟨_, ⟨hempty, -⟩, -⟩ | ⟨hdeadline, -⟩)
          · rw [← hb.deadline_eq_none, hbefore] at hempty
            cases hempty
          · exact Option.some.inj hdeadline
  | forget path =>
    simp [operate, forget, Step.Opens, Step.Empties, Step.after, isEmpty, and_comm]
  | takeDue now =>
    by_cases hdue : b.isDue now = true
    · simp [operate, later, hdue, Step.Opens, Step.Empties, Step.after, empty, isEmpty]
    · simpa [operate, later, hdue, Step.Opens, Step.Empties, Step.after] using hfull

/-- The batch closes one window after its first nodes. -/
theorem deadline_run {deadline : Nat} (window : Nat) (operations : List Operation) :
    ((empty window).run operations).deadline = some deadline ↔
      ∃ opened, Since (Step.Opens opened) Step.Empties ((empty window).steps operations) ∧
        deadline = opened + window := by
  induction operations using List.reverseRecOn with
  | nil => simp [run, empty, steps, not_since_nil]
  | append_singleton operations operation ih =>
    rw [run_append_singleton, steps_append_singleton, deadline_operate (isTimed_run window operations),
      ih, window_run]
    simp only [since_append_singleton, or_and_right, exists_or, and_right_comm, exists_and_right]
    rfl

/-! ## Batches -/

/-- What is left of a batcher that hands a batch out is as good as new. -/
theorem after_of_batch? {s : Step} (h : s.batch? = some batch) : s.after = empty s.before.window := by
  obtain ⟨b, operation⟩ := s
  cases operation with
  | takeDue now =>
    show b.later now = empty b.window
    rw [later, if_pos (due?_eq_some.mp h).1]
  | enqueue => cases h
  | forget => cases h

/-- A batch that is handed out is the one waited for, and is due. -/
theorem pending_of_batch? {s : Step} (h : s.batch? = some batch) :
    s.before.pending = batch ∧ s.before.deadline.isSome = true := by
  obtain ⟨b, operation⟩ := s
  cases operation with
  | takeDue now =>
    obtain ⟨hdue, hbatch⟩ := due?_eq_some.mp h
    obtain ⟨deadline, hdeadline, -⟩ := isDue_iff.mp hdue
    exact ⟨hbatch, hdeadline ▸ rfl⟩
  | enqueue => cases h
  | forget => cases h

/-- Between two batches the batcher is opened anew, and what the second one holds is put in. -/
theorem exists_of_batches {window : Nat} {earlier middle later : List Step} {s s' : Step}
    {batch' : PendingBatch}
    (h : (empty window).steps operations = earlier ++ s :: (middle ++ s' :: later))
    (hs : s.batch? = some batch) (hs' : s'.batch? = some batch') :
    (∃ t ∈ middle, ∃ now, t.Opens now) ∧
      ∀ file id, (file, id) ∈ batch'.nodes → ∃ t ∈ middle, t.Enqueues file id := by
  obtain ⟨before, after, -, -, hbefore, hafter⟩ := exists_of_steps_eq_append_cons h
  -- What follows the first batch is a run of a new batcher.
  rw [after_of_batch? hs, hbefore, window_run] at hafter
  obtain ⟨between, -, -, rfl, hbetween, -⟩ := exists_of_steps_eq_append_cons hafter.symm
  obtain ⟨hpending, hdeadline⟩ := pending_of_batch? hs'
  rw [hbetween] at hpending hdeadline
  constructor
  · obtain ⟨deadline, hdeadline⟩ := Option.isSome_iff_exists.mp hdeadline
    obtain ⟨opened, hsince, -⟩ := (deadline_run window between).mp hdeadline
    obtain ⟨t, ht, hopens⟩ := hsince.exists_mem
    exact ⟨t, ht, opened, hopens⟩
  · intro file id hid
    rw [PendingBatch.mem_nodes, ← hpending, mem_pending_run] at hid
    exact hid.exists_mem

/-- A batcher hands every node out once. After any operations on a new one, it has a deadline just while
it holds something, one window after the first nodes that came since it was last empty. When the deadline
has come, the nodes that were put in and neither forgotten nor handed out since are handed out, none
twice, and each batch has an opening of its own. -/
theorem hands_out_once (window : Nat) (operations : List Operation) :
    let b := (empty window).run operations
    let steps := (empty window).steps operations
    (b.deadline.isSome = !b.isEmpty) ∧
    (∀ deadline, b.deadline = some deadline ↔
      ∃ opened, Since (Step.Opens opened) Step.Empties steps ∧ deadline = opened + window) ∧
    (∀ now, (b.due? now).isSome = true ↔ ∃ deadline, b.deadline = some deadline ∧ deadline ≤ now) ∧
    (∀ now batch, b.due? now = some batch → batch.nodes.Nodup ∧
      ∀ file id, (file, id) ∈ batch.nodes ↔ Since (Step.Enqueues file id) (Step.Clears file) steps) ∧
    (∀ earlier s middle s' later batch batch', steps = earlier ++ s :: (middle ++ s' :: later) →
      s.batch? = some batch → s'.batch? = some batch' → (∃ t ∈ middle, ∃ now, t.Opens now) ∧
        ∀ file id, (file, id) ∈ batch'.nodes → ∃ t ∈ middle, t.Enqueues file id) := by
  intro b steps
  refine ⟨isTimed_run window operations, fun deadline => deadline_run window operations, ?_, ?_, ?_⟩
  · intro now
    rw [← isDue_iff, Option.isSome_iff_exists]
    simp only [due?_eq_some, exists_and_left, exists_eq', and_true]
  · intro now batch hbatch
    obtain ⟨-, rfl⟩ := due?_eq_some.mp hbatch
    refine ⟨PendingBatch.nodup_nodes b.pending, fun file id => ?_⟩
    rw [PendingBatch.mem_nodes]
    exact mem_pending_run window operations
  · intro earlier s middle s' later batch batch' hsteps hs hs'
    exact exists_of_batches hsteps hs hs'

/-- Forgetting the file that opened the batch leaves the deadline where it is. -/
example :
    let b := (empty 50).run [.enqueue "a.py" ["a.py::f"] 0, .enqueue "b.py" ["b.py::g"] 20,
      .forget "a.py"]
    b.deadline = some 50 ∧ b.pending.nodes = [("b.py", "b.py::g")] := by decide

end Batcher

end Flowgraph
