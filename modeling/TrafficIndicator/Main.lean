import TrafficIndicator.Log.Line
import TrafficIndicator.Palette
import TrafficIndicator.Session
/-!
The program: an indicator of this machine's traffic, run in real time. Each turn looks at the
files of the system, lets the loop run what is due and writes what came of it. No other
program is started, so the state of the login session stays unknown.
-/
namespace TrafficIndicator.Program

structure Console where
  setup : Panel.Setup Float
  threshold : Int
  loop : Loop Float Job (Station Float (Panel Float))

abbrev Live := StateT Console IO

def attempt {α : Type} (act : IO α) : IO (Option α) := do
  match ← act.toBaseIO with
  | .ok a => return some a
  | .error _ => return none

def clock : IO Float := do
  return (Binary64.ofRatio false (← IO.monoNanosNow) 1000000000).toFloat

def interface (e : IO.FS.DirEntry) : IO (LooseText × FileNode) := do
  let state := (← attempt (IO.FS.readBinFile (e.path / "operstate"))).map fun bytes =>
    (LooseText.chars "operstate", FileNode.file bytes 0)
  return (.chars e.fileName, .directory state.toList 0)

def interfaces (path : String) : IO (Option FileNode) := attempt do
  let entries ← (← IO.FS.realPath path).readDir
  return .directory (← entries.toList.mapM interface) 0

def counters (path : String) : IO (Option FileNode) := attempt do
  return .file (← IO.FS.readBinFile path) 0

def settings (path : LooseText) : IO (Option FileNode) := attempt do
  let .chars path := path | throw (.userError "no file has such a name")
  let file ← IO.FS.realPath path
  let changed := (← file.metadata).modified
  let stamp := Stamp.ofNanoseconds (changed.sec * 1000000000 + changed.nsec.toNat)
  if ← file.isDir then return .directory [] stamp
  return .file (← IO.FS.readBinFile file) stamp

def survey (setup : Station.Setup Float) : IO World := do
  let named (path : LooseText) (node : Option FileNode) : List (LooseText × FileNode) :=
    node.toList.map fun n => (path, n)
  return {
    here := { node := .directory [] 0 }
    found := named setup.countersPath (← counters setup.countersPath) ++
      named setup.interfacesPath (← interfaces setup.interfacesPath) ++
      named setup.settingsPath (← settings setup.settingsPath) }

def lookAround : Live Unit := do
  let c ← get
  let seconds ← clock
  let world ← survey c.setup.station
  set { c with loop := { c.loop with seconds := seconds, host := { c.loop.host with world } } }

def say (text : String) : IO Unit := do
  let out ← IO.getStdout
  out.putStr text
  out.flush

/-- Does something on the loop and writes what was sent and reported meanwhile. -/
def perform {α : Type} (act : Panel.Act Float α) : Live (Except Halt α) := do
  let c ← get
  let (result, l) := match act.run c.loop with
    | .ok a l => (Except.ok a, l)
    | .error h l => (.error h, l)
  let panel := l.host.owner
  for frame in panel.screen.frames do
    say frame.shown
  for n in l.host.notices do
    if n.passes c.threshold then
      IO.eprintln (n.line fun ms => toString ms.round.toUInt64)
  let panel := { panel with screen := panel.screen.cleared }
  set { c with loop := { l with host := { l.host with notices := [], owner := panel } } }
  return result

/-- Sleeps and serves the loop until nothing is left to wait for, or a job fails. -/
partial def follow : Live (Except Halt Unit) := do
  lookAround
  match ← perform Loop.upcoming with
  | .error h => return .error h
  | .ok none => perform (Station.report [.loopIdle])
  | .ok (some (d, wait)) =>
    if let some seconds := wait then
      IO.sleep (seconds * 1000).ceil.toUInt32
    lookAround
    match ← perform (Loop.serve (Panel.fire (← get).setup) d Loop.turnLimit) with
    | .error h => return .error h
    | .ok _ => follow

/-- A life of the indicator; answers why it failed, if it did. -/
def live : Live (Option Halt) := do
  let setup := (← get).setup
  say Terminal.hideCursor
  lookAround
  let worked ← match ← perform (Panel.attach setup) with
    | .error h => pure (Except.error h)
    | .ok () => follow
  match ← perform (Session.cleanUp setup), worked with
  | .error h, _ => return some h
  | .ok (), worked =>
    for text in Session.closing do
      say text.shown
    match worked with
    | .error h => return some h
    | .ok () => return none

def explain : Halt → String
  | .fault f => f.message.shown
  | .interrupt => "interrupted"
  | .exhausted => "too many timers at once"

def nestingLimit : Nat := 980

def machine : Application.Machine where
  readable := some nestingLimit
  writable := some nestingLimit
  coloring := Palette.coloring

def start (o : Options) : IO UInt32 := do
  let setting : Session.Setting Float := {
    machine := machine
    start := ← clock
    finish := 0
    login := (← IO.getEnv "XDG_SESSION_ID").map .chars
    logLevel := (← IO.getEnv "NETINDICATOR_LOG_LEVEL").map .chars
    seconds := Binary64.toFloat }
  match Session.prepare setting o with
  | .error f =>
    IO.eprintln f.message.shown
    return 1
  | .ok (threshold, plan) =>
    let timing := plan.timing setting.seconds
    let setup := Application.setup machine timing (setting.login.getD "") plan
    let loop := Application.start machine timing plan {} setting.start
    let (failure, _) ← live.run { setup, threshold, loop }
    match failure with
    | none => return 0
    | some h =>
      IO.eprintln (explain h)
      return 1

end TrafficIndicator.Program

def main (arguments : List String) : IO UInt32 := do
  match TrafficIndicator.CommandLine.parse (arguments.map .chars) with
  | .error stop =>
    IO.print stop.output
    IO.eprint stop.complaint.shown
    return UInt32.ofNat stop.exitCode
  | .ok options => TrafficIndicator.Program.start options
