import TrafficIndicator.Timer.Queue
/-!
A loop that runs queued jobs by deadline on one thread. A job may queue and cancel jobs,
move the clock, stop the loop or fail; what it did before it failed stays done. The loop is
given what a job does, how it sleeps and what it does when nothing is left to wait for.
Every function that may run without end takes a bound on the number of its turns.
-/
namespace TrafficIndicator

inductive Halt where
  | fault (f : Fault)
  | interrupt
  /-- The bound on the number of turns was used up. -/
  | exhausted
  deriving DecidableEq, Repr

/-- A clock in seconds, the queue, and whatever else the jobs act on. -/
structure Loop (τ κ ω : Type) where
  seconds : τ
  queue : Queue τ κ := {}
  running : Bool := false
  host : ω

namespace Loop

variable {τ κ ω : Type} [TimeScale τ]

/-- An activity on a loop; a halt keeps the state that was reached. -/
abbrev Act (τ κ ω α : Type) := EStateM Halt (Loop τ κ ω) α

def now (l : Loop τ κ ω) : τ := TimeScale.ofSeconds l.seconds

def deadline (l : Loop τ κ ω) (delay : τ) : τ := TimeScale.add l.now (TimeScale.delay delay)

def modifyHost (f : ω → ω) : Act τ κ ω Unit := modify fun l => { l with host := f l.host }

def later (delay : τ) (job : κ) : Act τ κ ω Nat := do
  let l ← get
  let (token, queue) := l.queue.push (l.deadline delay) job
  set { l with queue := queue }
  return token

def cancel (token : Nat) : Act τ κ ω Unit :=
  modify fun l => { l with queue := l.queue.cancel token }

def stop : Act τ κ ω Unit := modify fun l => { l with running := false }

def nextDeadline : Act τ κ ω (Option τ) := do
  modify fun l => { l with queue := l.queue.settle }
  return (← get).queue.deadline?

def takeDue (now : τ) : Act τ κ ω (Option (Entry τ κ)) := do
  let l ← get
  let (entry, queue) := l.queue.takeDue now
  set { l with queue := queue }
  return entry

structure Hooks (τ κ ω : Type) where
  fire : Entry τ κ → Act τ κ ω Unit
  sleep : τ → Act τ κ ω Unit
  idle : Act τ κ ω Unit

/-- Runs the jobs due at `now`, those included that they queue, and answers how many ran in
addition to `ran`. -/
def runDue (fire : Entry τ κ → Act τ κ ω Unit) (now : τ) : Nat → Nat → Act τ κ ω Nat
  | 0, _ => throw .exhausted
  | turns + 1, ran => do
    match ← takeDue now with
    | none => return ran
    | some e =>
      fire e
      runDue fire now turns (ran + 1)

def upcoming : Act τ κ ω (Option (τ × Option τ)) := do
  match ← nextDeadline with
  | none => return none
  | some d =>
    let wait := TimeScale.sub d (← get).now
    return some (d, if TimeScale.before TimeScale.zero wait then some (TimeScale.toSeconds wait)
      else none)

def serve (fire : Entry τ κ → Act τ κ ω Unit) (deadline : τ) (turns : Nat) : Act τ κ ω Nat := do
  runDue fire (TimeScale.later (← get).now deadline) turns 0

def spin (hooks : Hooks τ κ ω) : Nat → Act τ κ ω Unit
  | 0 => throw .exhausted
  | turns + 1 => do
    if (← get).running then
      match ← upcoming with
      | none => hooks.idle
      | some (d, wait) =>
        wait.forM hooks.sleep
        let _ ← serve hooks.fire d (turns + 1)
        spin hooks turns

/-- Runs the loop. However it ends, it is not running afterwards. -/
def run (hooks : Hooks τ κ ω) (turns : Nat) : Act τ κ ω Unit := fun l =>
  match spin hooks turns { l with running := true } with
  | .ok _ l => .ok () { l with running := false }
  | .error h l => .error h { l with running := false }

def catchUp (fire : Entry τ κ → Act τ κ ω Unit) (target : τ) : Nat → Act τ κ ω Unit
  | 0 => throw .exhausted
  | turns + 1 => do
    match ← nextDeadline with
    | none => pure ()
    | some d =>
      if !TimeScale.before target d then
        modify fun l => { l with seconds := TimeScale.later l.seconds (TimeScale.toSeconds d) }
        let _ ← runDue fire d (turns + 1) 0
        catchUp fire target turns

/-- Lets a number of milliseconds pass, running what falls due. -/
def advance (fire : Entry τ κ → Act τ κ ω Unit) (turns : Nat) (ms : τ) : Act τ κ ω Unit := do
  let target := TimeScale.add (← get).now ms
  catchUp fire target turns
  modify fun l => { l with seconds := TimeScale.later l.seconds (TimeScale.toSeconds target) }

def moveClock (seconds : τ) : Act τ κ ω Unit :=
  modify fun l => { l with seconds := TimeScale.add l.seconds seconds }

def turnLimit : Nat := 10000000

end Loop

end TrafficIndicator
