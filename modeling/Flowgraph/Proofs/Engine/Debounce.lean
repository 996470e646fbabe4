import Flowgraph.Proofs.Engine.Clock
import Flowgraph.Proofs.Engine.Deeds
import Flowgraph.Syntax.Parsers
import Mathlib.Data.List.Chain

/-!
# Bursts of changes

Changes of a file that come shortly one after another are handled together, once the file has been
quiet for long enough. What happens to other files meanwhile makes no difference.
-/

namespace Flowgraph

/-! ## Bursts -/

namespace Timing

/-- How long a change waits to be handled. A deletion does not wait. -/
def debounce (timing : Timing) : ChangeKind → Nat
  | .create => timing.createDebounce
  | .modify => timing.modifyDebounce
  | .delete => 0

/-- When a change is handled after which the file is quiet. -/
def settles (timing : Timing) (change : Nat × ChangeKind) : Nat :=
  change.1 + timing.debounce change.2

/-- Changes of a file, none of them a deletion, each of which comes before the last one has settled. -/
structure IsBurst (timing : Timing) (changes : List (Nat × ChangeKind)) : Prop where
  not_delete : ∀ c ∈ changes, c.2 ≠ .delete
  isChain : changes.IsChain fun c c' => c'.1 < timing.settles c

theorem IsBurst.of_append_singleton {timing : Timing} {first change : Nat × ChangeKind}
    {changes : List (Nat × ChangeKind)} (h : timing.IsBurst (first :: (changes ++ [change]))) :
    timing.IsBurst (first :: changes) ∧ change.2 ≠ .delete ∧
      change.1 < timing.settles (changes.getLastD first) := by
  have hlast : (first :: changes).getLast? = some (changes.getLastD first) := by
    rw [List.getLast?_cons, List.getLastD_eq_getLast?]
  rw [← List.cons_append] at h
  obtain ⟨hkinds, hkind⟩ := List.forall_mem_append.mp h.not_delete
  obtain ⟨hchain, -, hnext⟩ := List.isChain_append.mp h.isChain
  exact ⟨⟨hkinds, hchain⟩, hkind change List.mem_cons_self, hnext _ hlast _ rfl⟩

end Timing

/-- The change of a file that is heard in a round, with its time. -/
def Round.change? (path : String) (r : Round) : Option (Nat × ChangeKind) :=
  match r.message with
  | .change c => if c.path = path then some (r.now, c.kind) else none
  | _ => none

theorem Round.change?_eq_some_iff {path : String} {r : Round} {c : Nat × ChangeKind} :
    r.change? path = some c ↔ c.1 = r.now ∧ r.message = .change ⟨path, c.2⟩ := by
  obtain ⟨time, kind⟩ := c
  rw [change?]
  split
  next c hmessage =>
    obtain ⟨other, kind'⟩ := c
    simp [hmessage, eq_comm (b := time), and_left_comm]
  next hmessage =>
    exact iff_of_false nofun fun h => hmessage _ h.2

theorem Round.change?_eq_none_iff {path : String} {r : Round} :
    r.change? path = none ↔ ∀ kind, r.message ≠ .change ⟨path, kind⟩ := by
  rw [Option.eq_none_iff_forall_ne_some]
  constructor
  · intro h kind hmessage
    exact h (r.now, kind) (change?_eq_some_iff.mpr ⟨rfl, hmessage⟩)
  · intro h c hc
    exact h c.2 (change?_eq_some_iff.mp hc).2

/-- The time of the round, for each time that a file is read in it. -/
def Round.readTimes (path : String) (r : Round) : List Nat :=
  List.replicate (r.turn.reads.count path) r.now

namespace Loop

/-- The changes of a file in a run. -/
def changesOf (path : String) (rounds : List Round) : List (Nat × ChangeKind) :=
  rounds.filterMap (Round.change? path)

/-- The times at which a file is read in a run. -/
def readsOf (path : String) (rounds : List Round) : List Nat :=
  rounds.flatMap (Round.readTimes path)

theorem changesOf_append_singleton (path : String) (rounds : List Round) (r : Round) :
    changesOf path (rounds ++ [r]) = changesOf path rounds ++ (r.change? path).toList := by
  rw [changesOf, List.filterMap_append, List.filterMap_cons, List.filterMap_nil, changesOf]
  cases r.change? path <;> rfl

theorem exists_of_mem_changesOf {path : String} {rounds : List Round} {c : Nat × ChangeKind}
    (h : c ∈ changesOf path rounds) : ∃ r ∈ rounds, r.now = c.1 := by
  obtain ⟨r, hr, hchange⟩ := List.mem_filterMap.mp h
  exact ⟨r, hr, (Round.change?_eq_some_iff.mp hchange).1.symm⟩

theorem readsOf_append_singleton (path : String) (rounds : List Round) (r : Round) :
    readsOf path (rounds ++ [r]) = readsOf path rounds ++ r.readTimes path := by
  rw [readsOf, List.flatMap_append, List.flatMap_singleton, readsOf]

end Loop

namespace Engine

variable {e : Engine} {path : String} {message : Message} {now later deadline : Nat}
  {s : Store} {d : Deadlines} {paths : List String} {reads : List Nat}

/-! ## One file in a turn -/

/-- A file waits on, unless the message changes it or is the graph of an analysis, or it is due. -/
theorem Heard.times_eq [Parsers] (h : e.Heard now message s d paths)
    (hchange : ∀ kind, message ≠ .change ⟨path, kind⟩)
    (hinstall : ∀ reason files result, message ≠ .analyzed reason files (.ok result)) :
    paths.Nodup ∧ (path ∈ paths → path ∈ e.debounce.due now) ∧
      d.times[path]? = if path ∈ paths then none else e.debounce.times[path]? := by
  cases h with
  | deleted other =>
    have hother : other ≠ path := fun heq => hchange .delete (heq ▸ rfl)
    simp [Deadlines.cancel, Std.ExtTreeMap.getElem?_erase, hother]
  | changed other kind =>
    have hother : other ≠ path := fun heq => hchange kind (heq ▸ rfl)
    simp [Deadlines.schedule, Std.ExtTreeMap.getElem?_insert, hother]
  | deadline => exact ⟨Deadlines.nodup_due, id, Deadlines.getElem?_times_later⟩
  | analyzed reason files result => exact absurd rfl (hinstall reason files result)
  | analyze | classified | unclassified | unanalyzed => simp

/-- A file waits for the handling of its changes until a deadline, and is read then, once. The list has
the times at which it has been read. -/
inductive Awaits (path : String) (deadline now : Nat) (e : Engine) : List Nat → Prop
  | waiting (htime : e.debounce.times[path]? = some deadline) (hnow : now ≤ deadline) :
      Awaits path deadline now e []
  | handled (htime : e.debounce.times[path]? = none) (hnow : deadline ≤ now) :
      Awaits path deadline now e [deadline]

namespace Awaits

/-- The clock does not go past the deadline of a file that waits. -/
theorem pass (h : Awaits path deadline now e reads) (hlater : now ≤ later)
    (hwaits : ∀ first, e.nextDeadline? = some first → later ≤ max now first) :
    Awaits path deadline later e reads := by
  cases h with
  | waiting htime hnow =>
    obtain ⟨first, hfirst, hle⟩ := exists_nextDeadline?_le htime
    have hbound := hwaits first hfirst
    exact .waiting htime (by omega)
  | handled htime hnow => exact .handled htime (Nat.le_trans hnow hlater)

theorem reads_eq_nil (h : Awaits path deadline now e reads) (hnow : now < deadline) : reads = [] := by
  cases h with
  | waiting => rfl
  | handled _ hpast => exact absurd hpast (Nat.not_le.mpr hnow)

theorem reads_isPrefix (h : Awaits path deadline now e reads) : reads <+: [deadline] := by
  cases h with
  | waiting => exact List.nil_prefix
  | handled => exact List.prefix_rfl

/-- A file has been read once the engine waits for nothing until its deadline. -/
theorem reads_eq_singleton (h : Awaits path deadline now e reads)
    (hnext : ∀ first, e.nextDeadline? = some first → deadline < first) : reads = [deadline] := by
  cases h with
  | waiting htime =>
    obtain ⟨first, hfirst, hle⟩ := exists_nextDeadline?_le htime
    exact absurd (hnext first hfirst) (Nat.not_lt.mpr hle)
  | handled => rfl

end Awaits

end Engine

namespace Loop

open Engine

variable {graphs : Contents → Graph → Prop} {l m : Loop} {r : Round} {rounds : List Round}
  {path : String} {kind : ChangeKind} {first : Nat × ChangeKind} {start now deadline : Nat}
  {reads : List Nat}

section Parsers

variable [Parsers]

theorem Takes.awaits_of_change (h : l.Takes graphs r m) (hmessage : r.message = .change ⟨path, kind⟩)
    (hkind : kind ≠ .delete) :
    Awaits path (l.engine.timing.settles (r.now, kind)) r.now m.engine [] ∧
      r.readTimes path = [] := by
  have hstep : r.turn = l.engine.step r.read r.now r.message := by
    cases h <;> rfl
  rw [h.engine_eq, Round.readTimes, hstep, hmessage]
  refine ⟨.waiting ?_ (Nat.le_add_right r.now _), ?_⟩
  · cases kind with
    | delete => exact absurd rfl hkind
    | create | modify => exact Std.ExtTreeMap.getElem?_insert_self
  · cases kind with
    | delete => exact absurd rfl hkind
    | create | modify => rfl

theorem Takes.awaits (h : l.Takes graphs r m) (hchange : ∀ kind, r.message ≠ .change ⟨path, kind⟩)
    (hinstall : ∀ reason files result, r.message ≠ .analyzed reason files (.ok result))
    (hl : Awaits path deadline r.now l.engine reads) :
    Awaits path deadline r.now m.engine (reads ++ r.readTimes path) := by
  obtain ⟨s, d, paths, hheard, hsettles⟩ := h.exists_heard
  obtain ⟨hnodup, hdue, htimes⟩ := hheard.times_eq hchange hinstall
  obtain rfl := hsettles.debounce_eq
  rw [Round.readTimes, hsettles.reads_eq, hnodup.count]
  rw [← h.engine_eq] at htimes
  by_cases hmem : path ∈ paths
  · obtain ⟨time, htime, hcome⟩ := Deadlines.mem_due.mp (hdue hmem)
    rw [if_pos hmem] at htimes ⊢
    cases hl with
    | waiting hwait hnow =>
      obtain rfl : time = deadline := Option.some.inj (htime.symm.trans hwait)
      obtain rfl : r.now = time := Nat.le_antisymm hnow hcome
      exact .handled htimes (Nat.le_refl _)
    | handled hnone => exact absurd (hnone.symm.trans htime) nofun
  · rw [if_neg hmem] at htimes ⊢
    rw [List.replicate_zero, List.append_nil]
    cases hl with
    | waiting hwait hnow => exact .waiting (htimes.trans hwait) hnow
    | handled hnone hnow => exact .handled (htimes.trans hnone) hnow

/-- A file that is changed in a burst waits until the last change has settled. -/
theorem TimedRun.awaits (h : l.TimedRun graphs start rounds now m)
    (hl : Awaits path (l.engine.timing.settles first) start l.engine [])
    (hburst : l.engine.timing.IsBurst (first :: changesOf path rounds))
    (hinstall : ∀ r ∈ rounds, ∀ reason files result,
      r.message ≠ .analyzed reason files (.ok result)) :
    Awaits path (l.engine.timing.settles ((changesOf path rounds).getLastD first)) now m.engine
      (readsOf path rounds) := by
  induction h with
  | refl => exact hl
  | pass _ later hlater hwaits ih => exact (ih hburst hinstall).pass hlater hwaits
  | @round rounds m n r hrun hround ih =>
    obtain ⟨hinstall, hlast⟩ := List.forall_mem_append.mp hinstall
    have hnone := List.forall_mem_singleton.mp hlast
    rw [readsOf_append_singleton]
    cases hchange : r.change? path with
    | none =>
      rw [changesOf_append_singleton, hchange, Option.toList_none, List.append_nil] at hburst ⊢
      exact hround.awaits (Round.change?_eq_none_iff.mp hchange) hnone (ih hburst hinstall)
    | some change =>
      rw [changesOf_append_singleton, hchange, Option.toList_some] at hburst ⊢
      obtain ⟨hearlier, hkind, hearly⟩ := hburst.of_append_singleton
      obtain ⟨htime, hmessage⟩ := Round.change?_eq_some_iff.mp hchange
      obtain ⟨time, kind⟩ := change
      obtain rfl : time = r.now := htime
      have hunread : readsOf path rounds = [] := (ih hearlier hinstall).reads_eq_nil hearly
      obtain ⟨hnext, hreads⟩ := hround.awaits_of_change hmessage hkind
      rw [hrun.run.timing_eq] at hnext
      rw [hreads, hunread, List.append_nil, List.getLastD_concat]
      exact hnext

/-- A run in which a file is changed in a burst, up to the time at which the last change has settled. -/
theorem TimedRun.readsOf_of_awaits (h : l.TimedRun graphs start rounds now m)
    (hl : Awaits path (l.engine.timing.settles first) start l.engine [])
    (last : Nat × ChangeKind) :
    let settled := l.engine.timing.settles last
    let window := rounds.filter (·.now ≤ settled)
    (changesOf path window).getLastD first = last → start ≤ settled →
    l.engine.timing.IsBurst (first :: changesOf path window) →
    (∀ r ∈ window, ∀ reason files result, r.message ≠ .analyzed reason files (.ok result)) →
    readsOf path window <+: [settled] ∧ (settled < now → readsOf path window = [settled]) := by
  intro settled window hlast hstart hburst hinstall
  rcases h.until_cases hstart with ⟨hnow, hall⟩ | ⟨-, t, n, -, huntil, hnext⟩
  · have hwindow : window = rounds := List.filter_eq_self.mpr fun r hr => decide_eq_true (hall r hr)
    rw [← hwindow] at h
    have hawaits := h.awaits hl hburst hinstall
    rw [hlast] at hawaits
    exact ⟨hawaits.reads_isPrefix, fun hpast => absurd hpast (Nat.not_lt.mpr hnow)⟩
  · have hawaits := huntil.awaits hl hburst hinstall
    rw [hlast] at hawaits
    exact ⟨hawaits.reads_isPrefix, fun _ => hawaits.reads_eq_singleton hnext⟩

/-- A burst is handled in one go. After its first change, and as long as no analysis comes back, the
file is read just when the last change has settled, and then once. -/
theorem TimedRun.readsOf_of_isBurst {before rest : List Round} {first : Round}
    (h : l.TimedRun graphs start (before ++ first :: rest) now m)
    (hfirst : first.message = .change ⟨path, kind⟩) (changes : List (Nat × ChangeKind))
    (last : Nat × ChangeKind) :
    let settled := l.engine.timing.settles last
    let window := rest.filter (·.now ≤ settled)
    changesOf path (first :: window) = changes ++ [last] →
    l.engine.timing.IsBurst (changes ++ [last]) →
    (∀ r ∈ window, ∀ reason files result, r.message ≠ .analyzed reason files (.ok result)) →
    readsOf path window <+: [settled] ∧ (settled < now → readsOf path window = [settled]) := by
  intro settled window hchanges hburst hinstall
  obtain ⟨m', n, hbefore, hround, hrun⟩ := h.exists_of_append_cons
  have htiming : n.engine.timing = l.engine.timing := (hbefore.round hround).run.timing_eq
  have hheard : first.change? path = some (first.now, kind) :=
    Round.change?_eq_some_iff.mpr ⟨rfl, hfirst⟩
  have hwindow : (first.now, kind) :: changesOf path window = changes ++ [last] := by
    rw [← hchanges, changesOf, changesOf, List.filterMap_cons_some hheard]
  have hlast : (changesOf path window).getLastD (first.now, kind) = last := by
    rw [← List.getLastD_cons (a := last), hwindow, List.getLastD_concat]
  -- No change of the window is earlier than the first, from which the file begins to settle.
  have hstart : first.now ≤ settled := by
    have hmem : last ∈ (first.now, kind) :: changesOf path window := hwindow ▸ List.mem_concat_self
    have hle : first.now ≤ last.1 := by
      rcases List.mem_cons.mp hmem with rfl | hmem
      · exact Nat.le_refl _
      · obtain ⟨r, hr, htime⟩ := exists_of_mem_changesOf hmem
        exact htime ▸ hrun.start_le.2 r (List.mem_of_mem_filter hr)
    exact Nat.le_trans hle (Nat.le_add_right last.1 _)
  rw [← hwindow] at hburst
  have hn : Awaits path (n.engine.timing.settles (first.now, kind)) first.now n.engine [] := by
    have hnext := (hround.awaits_of_change hfirst (hburst.not_delete _ List.mem_cons_self)).1
    rwa [hbefore.run.timing_eq, ← htiming] at hnext
  have hreads := hrun.readsOf_of_awaits hn last
  rw [htiming] at hreads
  exact hreads hlast hstart hburst hinstall

end Parsers

/-- A burst with a change that shortens the wait, while another file is handled. -/
theorem TimedRun.readsOf_of_isBurst_interleaved :
    ∃ before first rest m,
      TimedRun textualGraphs ⟨.start ⟨1000, 250, 3000, 2000⟩ .empty, []⟩ 0 (before ++ first :: rest)
        2200 m ∧
      (before ++ first :: rest).map (fun r => (r.now, r.message)) =
        [(0, .change ⟨"b.py", .modify⟩), (100, .change ⟨"a.py", .modify⟩),
          (900, .change ⟨"a.py", .create⟩), (1000, .deadline), (1100, .change ⟨"a.py", .modify⟩),
          (2100, .deadline), (2200, .change ⟨"a.py", .create⟩)] ∧
      readsOf "a.py" (rest.filter (·.now ≤ 2100)) = [2100] := by
  let messages : List (Nat × Message) :=
    [(0, .change ⟨"b.py", .modify⟩), (100, .change ⟨"a.py", .modify⟩),
      (900, .change ⟨"a.py", .create⟩), (1000, .deadline), (1100, .change ⟨"a.py", .modify⟩),
      (2100, .deadline), (2200, .change ⟨"a.py", .create⟩)]
  have hheard : (messages.foldlM (hearAt fun _ => some "x = 1\n")
      (0, (⟨.start ⟨1000, 250, 3000, 2000⟩ .empty, []⟩ : Loop))).map Prod.fst = some 2200 := by
    decide +kernel
  obtain ⟨⟨now, m⟩, hm, rfl⟩ := Option.map_eq_some_iff.mp hheard
  obtain ⟨rounds, hrun, hrounds⟩ := exists_timedRun_of_foldlM_hearAt textualGraphs hm (by
    simp only [messages, List.forall_mem_cons]
    exact ⟨.change _, .change _, .change _, .deadline, .change _, .deadline, .change _, nofun⟩)
  have hall := hrounds
  simp only [messages, List.map_eq_cons_iff, List.map_eq_nil_iff, Prod.mk.injEq] at hall
  obtain ⟨b, -, rfl, -, a₁, -, rfl, ⟨ht₁, hm₁⟩, a₂, -, rfl, ⟨ht₂, hm₂⟩, w₁, -, rfl, ⟨ht₃, hm₃⟩, a₃, -, rfl,
    ⟨ht₄, hm₄⟩, w₂, -, rfl, ⟨ht₅, hm₅⟩, a₄, -, rfl, ⟨ht₆, -⟩, rfl⟩ := hall
  have hwindow : [a₂, w₁, a₃, w₂, a₄].filter (·.now ≤ 2100) = [a₂, w₁, a₃, w₂] := by
    simp [ht₂, ht₃, ht₄, ht₅, ht₆]
  have hsplit : TimedRun _ _ _ ([b] ++ a₁ :: [a₂, w₁, a₃, w₂, a₄]) _ m := hrun
  have hreads := hsplit.readsOf_of_isBurst hm₁ [(100, .modify), (900, .create)] (1100, .modify)
  refine ⟨[b], a₁, _, m, hrun, hrounds, (hreads ?_ ⟨?_, ?_⟩ ?_).2 (by decide)⟩
  · change changesOf "a.py" (a₁ :: List.filter (·.now ≤ 2100) [a₂, w₁, a₃, w₂, a₄]) = _
    simp [hwindow, changesOf, Round.change?, ht₁, ht₂, ht₄, hm₁, hm₂, hm₃, hm₄, hm₅]
  · decide
  · decide
  · change ∀ r ∈ List.filter (·.now ≤ 2100) [a₂, w₁, a₃, w₂, a₄], _
    simp [hwindow, hm₂, hm₃, hm₄, hm₅]

end Loop

end Flowgraph
