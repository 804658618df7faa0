import TrafficIndicator.Log.Notice
import TrafficIndicator.Timer.Loop
import TrafficIndicator.Timer.Slots
/-!
Scripts that drive a loop and its slots, from outside or from inside a job. A job has a
name and a script of its own; when it fires, the name and the time are recorded and its
script is run.
-/
namespace TrafficIndicator.Script

inductive Step (τ : Type) where
  | later (delay : τ) (name : LooseText) (body : List (Step τ))
  | cancel (token : Int)
  | arm (kind : LooseText) (delay : τ) (name : LooseText) (body : List (Step τ))
  | disarm (kind : LooseText)
  | disarmAll
  | isArmed (kind : LooseText)
  | nextDeadline
  | now
  | runDue (now : Option τ)
  | run
  | stop
  | moveClock (seconds : τ)
  | fail (message : LooseText)

structure Job (τ : Type) where
  /-- The slot that holds the job, if one does. -/
  kind : Option LooseText
  name : LooseText
  body : List (Step τ)

inductive Reply (τ : Type) where
  | nothing
  | count (n : Nat)
  | flag (b : Bool)
  | time (t : Option τ)

/-- How the slots cancel, and how far a sleep moves the clock. -/
structure Setup (τ : Type) where
  reaches : Nat → Bool := fun _ => true
  slept : τ → τ

structure Host (τ : Type) where
  slots : Slots LooseText := {}
  fired : List (LooseText × τ) := []
  sleeps : List τ := []
  notices : List (Notice τ) := []

variable {τ : Type} [TimeScale τ]

abbrev Act (τ α : Type) := Loop.Act τ (Job τ) (Host τ) α

def onSlots (f : Slots LooseText → Queue τ (Job τ) → Slots LooseText × Queue τ (Job τ)) :
    Act τ Unit :=
  modify fun l =>
    let (slots, queue) := f l.host.slots l.queue
    { l with queue := queue, host := { l.host with slots := slots } }

def sleep (setup : Setup τ) (seconds : τ) : Act τ Unit := do
  Loop.modifyHost fun h => { h with sleeps := h.sleeps ++ [seconds] }
  Loop.moveClock (setup.slept seconds)

def hooks (setup : Setup τ) (fire : Entry τ (Job τ) → Act τ Unit) :
    Loop.Hooks τ (Job τ) (Host τ) where
  fire := fire
  sleep := sleep setup
  idle := Loop.modifyHost fun h => { h with notices := h.notices ++ [.loopIdle] }

def perform (setup : Setup τ) (turns : Nat) (fire : Entry τ (Job τ) → Act τ Unit) :
    Step τ → Act τ (Reply τ)
  | .later delay name body => do
    return .count (← Loop.later delay ⟨none, name, body⟩)
  | .cancel token => do
    if 0 ≤ token then Loop.cancel token.toNat
    return .nothing
  | .arm kind delay name body => do
    let deadline := (← get).deadline delay
    onSlots fun s q => s.arm setup.reaches kind deadline ⟨some kind, name, body⟩ q
    return .nothing
  | .disarm kind => do
    onSlots fun s q => s.disarm setup.reaches kind q
    return .nothing
  | .disarmAll => do
    onSlots fun s q => s.disarmAll setup.reaches q
    return .nothing
  | .isArmed kind => do
    return .flag ((← get).host.slots.isArmed kind)
  | .nextDeadline => do
    return .time (← Loop.nextDeadline)
  | .now => do
    return .time (← get).now
  | .runDue now => do
    return .count (← Loop.runDue fire (now.getD (← get).now) turns 0)
  | .run => do
    Loop.run (hooks setup fire) turns
    return .nothing
  | .stop => do
    Loop.stop
    return .nothing
  | .moveClock seconds => do
    Loop.moveClock seconds
    return .nothing
  | .fail message => throw (.fault (.reported message))

/-- Fires a job: its slot is released, its name recorded and its script run. The depth
bounds how often a job may run the loop within a job. -/
def fire (setup : Setup τ) (turns : Nat) : Nat → Entry τ (Job τ) → Act τ Unit
  | 0, _ => throw .exhausted
  | depth + 1, e => do
    match e.job.kind with
    | some kind => Loop.modifyHost fun h => { h with slots := h.slots.release kind e.token }
    | none => pure ()
    let now := (← get).now
    Loop.modifyHost fun h => { h with fired := h.fired ++ [(e.job.name, now)] }
    e.job.body.forM fun step => do
      let _ ← perform setup turns (fire setup turns depth) step

def depthLimit : Nat := 10000

def step (setup : Setup τ) (s : Step τ) : Act τ (Reply τ) :=
  perform setup Loop.turnLimit (fire setup Loop.turnLimit depthLimit) s

end TrafficIndicator.Script
