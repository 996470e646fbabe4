import Flowgraph.Proofs.Deadlines
import Flowgraph.Proofs.Engine.Run
import Mathlib.Data.List.ReduceOption

/-!
# Runs by the clock

A run of the engine with the time that passes in it. The engine wakes in time, so that the clock goes
past a deadline only after the engine has dropped it or put it off.
-/

namespace Flowgraph

/-- A deadline of a change is one that the engine waits for. -/
theorem Engine.exists_nextDeadline?_le {e : Engine} {path : String} {deadline : Nat}
    (h : e.debounce.times[path]? = some deadline) :
    ∃ first, e.nextDeadline? = some first ∧ first ≤ deadline := by
  obtain ⟨settled, hnext, hsettled⟩ := Deadlines.exists_next?_le h
  have hmem : settled ∈ [e.debounce.next?, e.editing.next?, e.batcher.deadline].reduceOption := by
    rw [List.reduceOption_mem_iff, hnext]
    exact List.mem_cons_self
  cases hfirst : e.nextDeadline? with
  | none => exact absurd hmem (List.min?_eq_none_iff.mp hfirst ▸ List.not_mem_nil)
  | some first =>
    have hle : first ≤ settled := (List.min?_eq_some_iff.mp hfirst).2 settled hmem
    exact ⟨first, rfl, Nat.le_trans hle hsettled⟩

namespace Loop

variable {graphs : Contents → Graph → Prop} {l m n : Loop} {r : Round} {rounds before rest : List Round}
  {start now limit : Nat}

variable [Parsers]

/-- A run from one time to another. -/
inductive TimedRun (graphs : Contents → Graph → Prop) (l : Loop) (start : Nat) :
    List Round → Nat → Loop → Prop
  | refl : TimedRun graphs l start [] start l
  | pass {rounds : List Round} {now : Nat} {m : Loop} (hrun : TimedRun graphs l start rounds now m)
      (later : Nat) (hlater : now ≤ later)
      (hwaits : ∀ deadline, m.engine.nextDeadline? = some deadline → later ≤ max now deadline) :
      TimedRun graphs l start rounds later m
  | round {rounds : List Round} {m n : Loop} {r : Round} (hrun : TimedRun graphs l start rounds r.now m)
      (hround : m.Takes graphs r n) : TimedRun graphs l start (rounds ++ [r]) r.now n

namespace TimedRun

theorem run (h : l.TimedRun graphs start rounds now m) : l.Run graphs rounds m := by
  induction h with
  | refl => exact .refl
  | pass _ _ _ _ ih => exact ih
  | round _ hround ih => exact ih.snoc hround

theorem start_le (h : l.TimedRun graphs start rounds now m) :
    start ≤ now ∧ ∀ r ∈ rounds, start ≤ r.now := by
  induction h with
  | refl => exact ⟨Nat.le_refl start, List.forall_mem_nil _⟩
  | pass _ later hlater _ ih => exact ⟨Nat.le_trans ih.1 hlater, ih.2⟩
  | round _ _ ih => exact ⟨ih.1, List.forall_mem_append.mpr ⟨ih.2, List.forall_mem_singleton.mpr ih.1⟩⟩

/-- What comes before a round is a run, and so is what comes after it. -/
theorem exists_of_append_cons (h : l.TimedRun graphs start (before ++ r :: rest) now m) :
    ∃ m' n : Loop, l.TimedRun graphs start before r.now m' ∧ m'.Takes graphs r n ∧
      n.TimedRun graphs r.now rest now m := by
  generalize hrounds : before ++ r :: rest = rounds at h
  induction h generalizing rest with
  | refl => exact absurd hrounds (List.append_ne_nil_of_right_ne_nil before (List.cons_ne_nil r rest))
  | pass _ later hlater hwaits ih =>
    obtain ⟨m', n, hbefore, hround, hrest⟩ := ih hrounds
    exact ⟨m', n, hbefore, hround, hrest.pass later hlater hwaits⟩
  | round hrun hround ih =>
    rcases append_singleton_eq_append_cons.mp hrounds.symm with ⟨rfl, rfl, rfl⟩ | ⟨rest, rfl, rfl⟩
    · exact ⟨_, _, hrun, hround, .refl⟩
    · obtain ⟨m', n, hbefore, hfirst, hrest⟩ := ih rfl
      exact ⟨m', n, hbefore, hfirst, hrest.round hround⟩

/-- A run up to a time: the clock has not gone past it, or all that has happened until then is a run
after which the engine waits for nothing that is to come until then. -/
theorem until_cases (h : l.TimedRun graphs start rounds now m) (hstart : start ≤ limit) :
    (now ≤ limit ∧ ∀ r ∈ rounds, r.now ≤ limit) ∨
    (limit < now ∧ ∃ t n, t ≤ limit ∧
      l.TimedRun graphs start (rounds.filter (·.now ≤ limit)) t n ∧
      ∀ deadline, n.engine.nextDeadline? = some deadline → limit < deadline) := by
  induction h with
  | refl => exact .inl ⟨hstart, List.forall_mem_nil _⟩
  | @pass rounds now m hrun later hlater hwaits ih =>
    rcases ih with ⟨hnow, hall⟩ | ⟨hnow, t, n, ht, huntil, hnext⟩
    · rcases Nat.lt_or_ge limit later with hpast | hlimit
      · have hfilter : rounds.filter (·.now ≤ limit) = rounds :=
          List.filter_eq_self.mpr fun r hr => decide_eq_true (hall r hr)
        refine .inr ⟨hpast, now, m, hnow, hfilter.symm ▸ hrun, fun deadline hdeadline => ?_⟩
        have := hwaits deadline hdeadline
        omega
      · exact .inl ⟨hlimit, hall⟩
    · exact .inr ⟨Nat.lt_of_lt_of_le hnow hlater, t, n, ht, huntil, hnext⟩
  | @round rounds m n r hrun hround ih =>
    rcases ih with ⟨hnow, hall⟩ | ⟨hnow, t, n, ht, huntil, hnext⟩
    · refine .inl ⟨hnow, ?_⟩
      rw [List.forall_mem_append, List.forall_mem_singleton]
      exact ⟨hall, hnow⟩
    · refine .inr ⟨hnow, t, n, ht, ?_, hnext⟩
      simpa [Nat.not_le.mpr hnow] using huntil

end TimedRun

/-! ## Playing a run -/

/-- The clock and the loop after a message that comes on its own, if the engine does not wake before. -/
def hearAt (read : String → Option String) (p : Nat × Loop) (m : Nat × Message) :
    Option (Nat × Loop) :=
  if p.1 ≤ m.1 ∧ p.2.engine.nextDeadline?.all (fun deadline => decide (m.1 ≤ max p.1 deadline)) then
    (p.2.hear m.1 read m.2).map (m.1, ·)
  else none

theorem exists_timedRun_of_foldlM_hearAt (graphs : Contents → Graph → Prop)
    {read : String → Option String} {messages : List (Nat × Message)}
    (h : messages.foldlM (hearAt read) (start, l) = some (now, m))
    (hmessages : ∀ m ∈ messages, m.2.IsUnasked) :
    ∃ rounds, l.TimedRun graphs start rounds now m ∧
      rounds.map (fun r => (r.now, r.message)) = messages := by
  induction messages using List.reverseRecOn generalizing now m with
  | nil =>
    cases h
    exact ⟨[], .refl, rfl⟩
  | append_singleton messages message ih =>
    rw [List.foldlM_append] at h
    obtain ⟨⟨earlier, n⟩, hn, hlast⟩ := Option.bind_eq_some_iff.mp h
    simp only [List.foldlM_cons, List.foldlM_nil, bind_pure, hearAt, Option.ite_none_right_eq_some,
      Option.map_eq_some_iff, Prod.mk.injEq, Option.all_eq_true, decide_eq_true_eq] at hlast
    obtain ⟨⟨hlater, hwaits⟩, m, hhear, rfl, rfl⟩ := hlast
    obtain ⟨rounds, hrun, hheard⟩ := ih hn fun m hm => hmessages m (List.mem_append_left _ hm)
    have hround := takes_of_hear graphs hhear
      (hmessages message (List.mem_append_right _ (List.mem_singleton_self message)))
    refine ⟨_, (hrun.pass message.1 hlater hwaits).round hround, ?_⟩
    rw [List.map_append, hheard, List.map_singleton]

end Loop

end Flowgraph
