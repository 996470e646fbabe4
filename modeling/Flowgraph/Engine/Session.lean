import Flowgraph.Cache.Analysis
import Flowgraph.Engine.Basic

/-!
# Sessions

An engine at work on a virtual clock, with the files it reads, the cache and the classifier it asks.
Answers of the classifier take their time. At one instant, what is due is handled before answers are.
-/

namespace Flowgraph

/-- What surrounds an engine and does not change. -/
structure Setting (σ : Type) where
  cache : AnalysisCache σ
  classifier : Classifier
  /-- How long the classifier takes to name nodes, in milliseconds. -/
  classifyDelay : Nat
  /-- How long the classifier takes to analyze files, in milliseconds. -/
  analyzeDelay : Nat

/-- A request that the classifier has received. -/
inductive Request where
  | classify (request : ClassificationRequest)
  | analyze (request : AnalysisRequest)

/-- What happens to a session from outside. -/
inductive Action where
  | setFile (path content : String)
  | removeFile (path : String)
  | change (c : Change)
  | analyze (reason : String)
  | shutdown
  /-- Lets the given number of milliseconds pass. -/
  | advance (duration : Nat)

/-- A message on its way to the engine. -/
structure Answer where
  due : Nat
  message : Message

structure Session (σ : Type) where
  now : Nat
  engine : Engine
  isRunning : Bool
  files : Contents
  entries : σ
  /-- The answers on their way, in the order of the requests. -/
  answers : List Answer
  /-- The events so far, each with its time. -/
  events : List (Nat × EngineEvent)
  /-- The requests so far. -/
  requests : List Request

namespace Session

variable [Parsers]

/-- A session at time zero. -/
def start (engine : Engine) (files : Contents) (entries : σ) : Session σ where
  now := 0
  engine
  isRunning := true
  files
  entries
  answers := []
  events := []
  requests := []

/-! ## Effects -/

/-- Asks the classifier, whose answer comes after a delay. -/
def ask (s : Session σ) (request : Request) (delay : Nat) (message : Message) : Session σ :=
  { s with
    requests := s.requests ++ [request]
    answers := s.answers ++ [⟨s.now + delay, message⟩] }

/-- Does the work of a job. An analysis that the cache can serve is answered at once. -/
def work (setting : Setting σ) (s : Session σ) : Job → Session σ
  | .classify request =>
    s.ask (.classify request) setting.classifyDelay
      (.classified (setting.classifier.classify request))
  | .analyze reason files =>
    let request := AnalysisRequest.ofFiles files
    let outcome :=
      setting.cache.analyze (fun _ => setting.classifier.analyze request) s.entries files
    let message : Message := .analyzed reason files outcome.result
    match setting.cache.hit? s.entries files with
    | some _ => { s with answers := s.answers ++ [⟨s.now, message⟩] }
    | none => ask { s with entries := outcome.entries } (.analyze request) setting.analyzeDelay message

def perform (setting : Setting σ) (s : Session σ) : Effect → Session σ
  | .read _ => s
  | .emit event => { s with events := s.events ++ [(s.now, event)] }
  | .start job => s.work setting job

/-- Has the engine react to a message. An engine that fails stops. -/
def deliver (setting : Setting σ) (s : Session σ) (message : Message) : Session σ :=
  let t := s.engine.step (fun path => s.files[path]?) s.now message
  t.effects.foldl (perform setting) { s with engine := t.engine, isRunning := t.failure.isNone }

/-! ## Time -/

/-- Takes the first element that satisfies `p` out of a list. -/
def takeFirst (p : α → Bool) : List α → Option (α × List α)
  | [] => none
  | a :: as => if p a then some (a, as) else (takeFirst p as).map fun r => (r.1, a :: r.2)

/-- The next message at the present instant, with the answers that stay on their way. -/
def nextMessage? (s : Session σ) : Option (Message × List Answer) :=
  if s.engine.nextDeadline?.any fun deadline => decide (deadline ≤ s.now) then
    some (.deadline, s.answers)
  else
    (takeFirst (fun (a : Answer) => decide (a.due ≤ s.now)) s.answers).map fun r =>
      (r.1.message, r.2)

/-- Delivers what there is to deliver at the present instant, at most `limit` messages. -/
def settle (setting : Setting σ) : Nat → Session σ → Session σ
  | 0, s => s
  | limit + 1, s =>
    if s.isRunning then
      match s.nextMessage? with
      | none => s
      | some (message, answers) => settle setting limit (deliver setting { s with answers } message)
    else s

/-- The number of messages after which an instant ends at the latest. -/
def messageLimit : Nat := 1000

/-- The next instant at which there is something to deliver. -/
def nextInstant? (s : Session σ) : Option Nat :=
  if s.isRunning then (s.engine.nextDeadline?.toList ++ s.answers.map (·.due)).min? else none

/-- Moves on to `target`, through at most `limit` instants at which something happens. -/
def moveTo (setting : Setting σ) (target : Nat) : Nat → Session σ → Session σ
  | 0, s => { s with now := target }
  | limit + 1, s =>
    match s.nextInstant? with
    | none => { s with now := target }
    | some t =>
      if t ≤ target then
        moveTo setting target limit (settle setting messageLimit { s with now := max s.now t })
      else { s with now := target }

/-- Lets time pass. Every instant at which something happens is a millisecond of its own. -/
def advance (setting : Setting σ) (duration : Nat) (s : Session σ) : Session σ :=
  moveTo setting (s.now + duration) (duration + 1) s

/-! ## Actions -/

/-- Sends the engine a message, unless it has stopped. -/
def send (setting : Setting σ) (s : Session σ) (message : Message) : Session σ :=
  if s.isRunning then settle setting messageLimit (s.deliver setting message) else s

def act (setting : Setting σ) (s : Session σ) : Action → Session σ
  | .setFile path content => { s with files := s.files.insert path content }
  | .removeFile path => { s with files := s.files.erase path }
  | .change c => s.send setting (.change c)
  | .analyze reason => s.send setting (.analyze reason)
  | .shutdown => { s with isRunning := false }
  | .advance duration => s.advance setting duration

end Session

/-- Whether an action reaches only an engine that runs. -/
def Action.needsEngine : Action → Bool
  | .change _ | .analyze _ | .shutdown => true
  | .setFile _ _ | .removeFile _ | .advance _ => false

end Flowgraph
