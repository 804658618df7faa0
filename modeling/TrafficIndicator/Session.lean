import TrafficIndicator.Application
import TrafficIndicator.CommandLine.Arguments
/-!
A whole run of the program in a world whose changes are known beforehand: from the command
line to the last word on the terminal. Sleeping moves the clock and brings the changes that
are due; a sleep beyond the end of the session is where the user interrupts. However the run
ends, the indicator is detached and the terminal gets its cursor back.
-/
namespace TrafficIndicator

inductive Ending where
  | done
  | stopped (s : CommandLine.Stop)
  | failed (h : Halt)
  deriving DecidableEq, Repr

structure Account (τ : Type) where
  written : List LooseText := []
  notices : List (Notice τ) := []
  /-- Jobs that are still queued at the end. -/
  pending : Nat := 0
  seconds : τ
  ending : Ending

namespace Session

structure Setting (τ : Type) where
  machine : Application.Machine := {}
  world : World := {}
  upcoming : List (τ × World.Change) := []
  start : τ
  finish : τ
  /-- A bound on the turns of the loop. -/
  turns : Nat := Loop.turnLimit
  /-- The login session, and the log level, that the environment names. -/
  login : Option LooseText := none
  logLevel : Option LooseText := none
  seconds : Binary64 → τ

variable {τ : Type} [TimeScale τ]

def sleep (finish seconds : τ) : Panel.Act τ Unit := do
  let l ← get
  let target := TimeScale.add l.seconds seconds
  if TimeScale.before finish target then throw .interrupt
  let (due, rest) := l.host.upcoming.partition fun (at_, _) => TimeScale.upTo at_ target
  let world := due.foldl (fun w (_, c) => w.change c) l.host.world
  set { l with seconds := target, host := { l.host with world := world, upcoming := rest } }

def hooks (setup : Panel.Setup τ) (finish : τ) : Loop.Hooks τ Job (Station τ (Panel τ)) where
  fire := Panel.fire setup
  sleep := sleep finish
  idle := Station.report [.loopIdle]

def work (setup : Panel.Setup τ) (finish : τ) (turns : Nat) : Panel.Act τ Unit := do
  Panel.attach setup
  Loop.run (hooks setup finish) turns

def cleanUp (setup : Panel.Setup τ) : Panel.Act τ Unit := do
  Panel.detach setup
  Loop.stop

def runThrough {ω α : Type} (act : Loop.Act τ Job ω α) (l : Loop τ Job ω) :
    Loop τ Job ω × Option Halt :=
  match act.run l with
  | .ok _ l => (l, none)
  | .error h l => (l, some h)

def farewell : String := "\nExiting...\n"

def closing : List LooseText := [.chars Terminal.showCursor, .chars farewell]

def output (frames : List LooseText) (trouble : Option Halt) : List LooseText :=
  .chars Terminal.hideCursor :: frames ++ if trouble.isSome then [] else closing

/-- How a run ends whose work and whose clean-up halted, if they did. An interruption of the work
is no failure. -/
def ending : (halt trouble : Option Halt) → Ending
  | _, some h => .failed h
  | some .interrupt, none => .done
  | some h, none => .failed h
  | none, none => .done

def follow (s : Setting τ) (threshold : Int) (p : Application.Plan) : Account τ :=
  let t := p.timing s.seconds
  let setup := Application.setup s.machine t (s.login.getD "") p
  let l := Application.start s.machine t p s.world s.start
  let l := { l with host := { l.host with upcoming := s.upcoming } }
  let (l, halt) := runThrough (work setup s.finish s.turns) l
  let (l, trouble) := runThrough (cleanUp setup) l
  { written := output l.host.owner.screen.frames trouble
    notices := l.host.notices.filter (Notice.passes threshold)
    pending := l.queue.liveCount
    seconds := l.seconds
    ending := ending halt trouble }

/-- The log threshold and the plan of some options, which may lack a value that is needed. -/
def prepare (s : Setting τ) (o : Options) : Except Fault (Int × Application.Plan) := do
  let threshold ← LogLevel.configure s.logLevel (.text (o.logLevel.getD ""))
  let p ← Application.plan o
  return (threshold, p)

def run (s : Setting τ) (arguments : List LooseText) : Account τ :=
  match CommandLine.parse arguments with
  | .error stop => { seconds := s.start, ending := .stopped stop }
  | .ok o =>
    match prepare s o with
    | .error f => { seconds := s.start, ending := .failed (.fault f) }
    | .ok (threshold, p) => follow s threshold p

end Session

end TrafficIndicator
