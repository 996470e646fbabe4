import Flowgraph.Proofs.Analysis
import Flowgraph.Proofs.Engine.Turns
import Flowgraph.Proofs.History
import Mathlib.Data.List.Induction

/-!
# Runs of the engine

The engine with the jobs it has started, and the rounds it goes through. Changes, requests and
deadlines come at any time, and every other message answers a job. The texts that can be read differ
from one round to the next.
-/

namespace Flowgraph

/-! ## Rounds -/

/-- Whether a message comes on its own. -/
inductive Message.IsUnasked : Message → Prop
  | change (c : Change) : IsUnasked (.change c)
  | analyze (reason : String) : IsUnasked (.analyze reason)
  | deadline : IsUnasked .deadline

/-- Whether a message is the graph of an analysis that contains a file. -/
def Message.Restores (file : String) (message : Message) : Prop :=
  ∃ reason files result, message = .analyzed reason files (.ok result) ∧ file ∈ files

/-- Whether a message answers a job, where the analysis of some files comes to a graph that `graphs`
relates them to. -/
inductive Job.IsAnsweredBy (graphs : Contents → Graph → Prop) : Job → Message → Prop
  | classified (request : ClassificationRequest) (answer : Except String (List Classification)) :
      IsAnsweredBy graphs (.classify request) (.classified answer)
  | analyzed (reason : String) (files : Contents) (result : AnalysisResult)
      (hgraph : graphs files result.graph) :
      IsAnsweredBy graphs (.analyze reason files) (.analyzed reason files (.ok result))
  | failed (reason : String) (files : Contents) (error : String) :
      IsAnsweredBy graphs (.analyze reason files) (.analyzed reason files (.error error))

variable [Parsers]

/-- The graphs that the analysis of some files can come to where nothing but their text is asked. -/
def textualGraphs (files : Contents) (g : Graph) : Prop :=
  Classifier.textual.analyze (.ofFiles files) = .ok g

theorem textualGraphs_iff {files : Contents} {g : Graph} :
    textualGraphs files g ↔ localAnalysis files = .ok g := by
  change (localAnalysis files).mapError ImportError.message = .ok g ↔ localAnalysis files = .ok g
  cases localAnalysis files <;> simp [Except.mapError]

/-- Such a graph has nodes of the analyzed files alone. -/
theorem mem_of_textualGraphs {files : Contents} {g : Graph} (h : textualGraphs files g) {file : String}
    (hfile : g.hasFile file = true) : file ∈ files := by
  obtain ⟨r, -, hcovers, -⟩ := exists_covers_localAnalysis (textualGraphs_iff.mp h)
  obtain ⟨function, hshows⟩ := Graph.hasFile_iff.mp hfile
  obtain ⟨content, hmem⟩ := hcovers.exists_content file function hshows
  exact OrderedMap.mem_of_getElem? (Std.ExtTreeMap.mem_toList_iff_getElem?_eq_some.mp hmem)

/-- A message with the time at which it comes, the texts that can be read then, and the turn that the
engine takes. -/
structure Round where
  now : Nat
  read : String → Option String
  message : Message
  turn : Turn

/-- The engine with the jobs that have not been answered. -/
structure Loop where
  engine : Engine
  jobs : List Job

namespace Loop

variable {graphs : Contents → Graph → Prop} {l m n : Loop} {r : Round} {rounds : List Round}

/-- A round of the engine. A turn that fails ends the engine, and so no round follows it. -/
inductive Takes (graphs : Contents → Graph → Prop) : Loop → Round → Loop → Prop
  | unasked (e : Engine) (jobs : List Job) (now : Nat) (read : String → Option String)
      (message : Message) (hmessage : message.IsUnasked)
      (hdone : (e.step read now message).failure = none) :
      Takes graphs ⟨e, jobs⟩ ⟨now, read, message, e.step read now message⟩
        ⟨(e.step read now message).engine, jobs ++ (e.step read now message).jobs⟩
  | answer (e : Engine) (before : List Job) (job : Job) (after : List Job) (now : Nat)
      (read : String → Option String) (message : Message) (hjob : job.IsAnsweredBy graphs message)
      (hdone : (e.step read now message).failure = none) :
      Takes graphs ⟨e, before ++ job :: after⟩ ⟨now, read, message, e.step read now message⟩
        ⟨(e.step read now message).engine, before ++ after ++ (e.step read now message).jobs⟩

/-- One round after another. -/
inductive Run (graphs : Contents → Graph → Prop) (l : Loop) : List Round → Loop → Prop
  | refl : Run graphs l [] l
  | snoc {rounds : List Round} {m n : Loop} {r : Round} (hrun : Run graphs l rounds m)
      (hround : m.Takes graphs r n) : Run graphs l (rounds ++ [r]) n

namespace Takes

theorem engine_eq (h : l.Takes graphs r m) : m.engine = r.turn.engine := by
  cases h <;> rfl

theorem mem_jobs (h : l.Takes graphs r m) {job : Job} (hjob : job ∈ m.jobs) :
    job ∈ l.jobs ∨ job ∈ r.turn.jobs := by
  cases h with
  | unasked e jobs => exact List.mem_append.mp hjob
  | answer e before job after =>
    refine (List.mem_append.mp hjob).imp_left fun hold => ?_
    exact (List.mem_append.mp hold).elim (List.mem_append_left _)
      fun hafter => List.mem_append_right _ (List.mem_cons_of_mem _ hafter)

/-- An analysis is answered once it has been started, by a graph of its files. -/
theorem mem_jobs_of_analyzed (h : l.Takes graphs r m) {reason : String} {files : Contents}
    {result : AnalysisResult} (hmessage : r.message = .analyzed reason files (.ok result)) :
    .analyze reason files ∈ l.jobs ∧ graphs files result.graph := by
  cases h with
  | unasked e jobs now read message hunasked =>
    obtain rfl : message = .analyzed reason files (.ok result) := hmessage
    cases hunasked
  | answer e before job after now read message hjob =>
    obtain rfl : message = .analyzed reason files (.ok result) := hmessage
    cases hjob with
    | analyzed reason files result hgraph =>
      exact ⟨List.mem_append_right _ List.mem_cons_self, hgraph⟩

theorem exists_heard (h : l.Takes graphs r m) :
    ∃ s d paths, l.engine.Heard r.now r.message s d paths ∧
      Engine.Settles r.read s d paths r.turn := by
  cases h with
  | unasked e jobs now read message hmessage hdone => exact Engine.exists_heard hdone
  | answer e before job after now read message hjob hdone => exact Engine.exists_heard hdone

end Takes

theorem Takes.run (h : l.Takes graphs r m) : l.Run graphs [r] m := .snoc .refl h

theorem Run.trans {rounds' : List Round} (hlm : l.Run graphs rounds m) (hmn : m.Run graphs rounds' n) :
    l.Run graphs (rounds ++ rounds') n := by
  induction hmn with
  | refl => rwa [List.append_nil]
  | snoc _ hround ih =>
    rw [← List.append_assoc]
    exact ih.snoc hround

/-! ## Playing a run -/

section Play

variable {now : Nat} {read : String → Option String} {message : Message}

/-- The loop after a message that comes on its own, unless the turn fails. -/
def hear (l : Loop) (now : Nat) (read : String → Option String) (message : Message) : Option Loop :=
  let t := l.engine.step read now message
  if t.failure = none then some ⟨t.engine, l.jobs ++ t.jobs⟩ else none

/-- The loop after such messages, one after another with the time at which each comes. -/
def hears (l : Loop) (read : String → Option String) (messages : List (Nat × Message)) : Option Loop :=
  messages.foldlM (fun l m => l.hear m.1 read m.2) l

/-- The loop after its first job, an analysis, has come back with the graph of the text. -/
def answer (l : Loop) (now : Nat) (read : String → Option String) : Option Loop :=
  match l.jobs with
  | .analyze reason files :: jobs =>
    match localAnalysis files with
    | .error _ => none
    | .ok g => hear ⟨l.engine, jobs⟩ now read (.analyzed reason files (.ok ⟨g, false⟩))
  | _ => none

theorem hear_eq_some :
    l.hear now read message = some m ↔ (l.engine.step read now message).failure = none ∧
      m = ⟨(l.engine.step read now message).engine,
        l.jobs ++ (l.engine.step read now message).jobs⟩ := by
  simp only [hear, Option.ite_none_right_eq_some, Option.some.injEq, eq_comm (b := m)]

theorem takes_of_hear (graphs : Contents → Graph → Prop) (h : l.hear now read message = some m)
    (hmessage : message.IsUnasked) :
    l.Takes graphs ⟨now, read, message, l.engine.step read now message⟩ m := by
  obtain ⟨hdone, rfl⟩ := hear_eq_some.mp h
  exact .unasked l.engine l.jobs now read message hmessage hdone

theorem exists_takes_of_hear (graphs : Contents → Graph → Prop)
    (h : l.hear now read message = some m) (hmessage : message.IsUnasked) :
    ∃ r, l.Takes graphs r m ∧ r.message = message :=
  ⟨_, takes_of_hear graphs h hmessage, rfl⟩

theorem exists_run_of_hears (graphs : Contents → Graph → Prop) {messages : List (Nat × Message)}
    (h : l.hears read messages = some m) (hmessages : ∀ m ∈ messages, m.2.IsUnasked) :
    ∃ rounds, l.Run graphs rounds m ∧ rounds.map (·.message) = messages.map Prod.snd := by
  induction messages using List.reverseRecOn generalizing m with
  | nil =>
    cases h
    exact ⟨[], .refl, rfl⟩
  | append_singleton messages message ih =>
    rw [hears, List.foldlM_append] at h
    obtain ⟨n, hn, hlast⟩ := Option.bind_eq_some_iff.mp h
    simp only [List.foldlM_cons, List.foldlM_nil, bind_pure] at hlast
    obtain ⟨rounds, hrun, hheard⟩ := ih hn fun m hm => hmessages m (List.mem_append_left _ hm)
    obtain ⟨r, hround, hmessage⟩ := exists_takes_of_hear graphs hlast
      (hmessages message (List.mem_append_right _ (List.mem_singleton_self message)))
    refine ⟨rounds ++ [r], hrun.snoc hround, ?_⟩
    rw [List.map_append, List.map_append, hheard, List.map_singleton, List.map_singleton, hmessage]

theorem exists_takes_of_answer (h : l.answer now read = some m) :
    ∃ r, l.Takes textualGraphs r m ∧
      ∃ reason files result, r.message = .analyzed reason files (.ok result) := by
  obtain ⟨e, jobs⟩ := l
  rw [answer] at h
  split at h
  next reason files jobs hjobs =>
    obtain rfl : _ = .analyze reason files :: jobs := hjobs
    split at h
    · cases h
    next g hg =>
      obtain ⟨hdone, rfl⟩ := hear_eq_some.mp h
      have hanswer : Job.IsAnsweredBy textualGraphs (.analyze reason files) _ :=
        .analyzed reason files ⟨g, false⟩ (textualGraphs_iff.mpr hg)
      exact ⟨_, .answer e [] _ jobs now read _ hanswer hdone, reason, files, ⟨g, false⟩, rfl⟩
  · cases h

end Play

end Loop

end Flowgraph
