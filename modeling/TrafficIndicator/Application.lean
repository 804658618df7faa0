import TrafficIndicator.CommandLine.Options
import TrafficIndicator.Station.Panel
/-!
The indicator that the options of the program describe: its intervals, its collaborators
and what it counts.
-/
namespace TrafficIndicator

/-- The sampling and polling intervals of the options, in seconds. -/
structure Timing (τ : Type) where
  interval : τ
  poll : τ

namespace Application

variable {τ : Type} [TimeScale τ]

def atLeast (ms : Nat) (seconds : τ) : τ :=
  TimeScale.ofSeconds (TimeScale.later (TimeScale.toSeconds (TimeScale.ofNat ms)) seconds)

def sampleInterval (t : Timing τ) : τ := atLeast 500 t.interval

def pollInterval (t : Timing τ) : τ := atLeast 100 t.poll

def sessionInterval (t : Timing τ) : τ := TimeScale.later (pollInterval t) (TimeScale.ofNat 5000)

/-- What the options ask for, once each that needs a value has one. -/
structure Plan where
  interval : Binary64
  poll : Binary64
  filter : Counters.Filter
  settings : List (LooseText × Value)
  /-- The path of the settings file; empty for none. -/
  settingsPath : LooseText
  color : Option LooseText

def plan (o : Options) : Except Fault Plan := do
  let interval ← o.interval.required .notNumeric
  let poll ← o.poll.required .notNumeric
  let exclude ← o.exclude.required .noText
  let settings ← o.settings
  return {
    interval := interval
    poll := poll
    filter := {
      only := o.interface.getD none
      excluded := Counters.names exclude }
    settings := settings
    settingsPath := (o.settingsFile.getD none).getD ""
    color := o.color.getD none }

def Plan.timing (p : Plan) (seconds : Binary64 → τ) : Timing τ :=
  ⟨seconds p.interval, seconds p.poll⟩

def collaborators (p : Plan) : Collaborators where
  settings := .fixed p.settings :: if p.settingsPath.isEmpty then [] else [.file]
  connectivity := some .polled
  tint := match p.color with
    | some name => if name.isEmpty then none else some (.text name, true)
    | none => none
  lock := some .polled

/-- What the program runs on: where it finds the counters and the interfaces, what it can take,
and how its terminal colors a text and what it refuses. -/
structure Machine where
  counters : String := "/proc/net/dev"
  interfaces : String := "/sys/class/net"
  /-- How deep values may lie in one another to be read, and to be written. -/
  readable : Option Nat := none
  writable : Option Nat := none
  coloring : Coloring := .uncolored
  refusal : List Command → Option Fault := fun _ => none

def setup (m : Machine) (t : Timing τ) (session : LooseText) (p : Plan) : Panel.Setup τ where
  station := {
    interval := fun
      | .session => sessionInterval t
      | _ => pollInterval t
    interfacesPath := m.interfaces
    countersPath := m.counters
    settingsPath := p.settingsPath
    nesting := m.readable
    defaults := p.settings
    session := session }
  collaborators := collaborators p

def panel (m : Machine) (t : Timing τ) (p : Plan) : Panel τ where
  indicator := { sampler := { interval := sampleInterval t }, nesting := m.writable }
  screen := { terminal := some { coloring := m.coloring }, refusal := m.refusal }
  counters := .table p.filter

def start (m : Machine) (t : Timing τ) (p : Plan) (world : World) (seconds : τ) :
    Loop τ Job (Station τ (Panel τ)) where
  seconds := seconds
  host := { world := world, owner := panel m t p }

end Application

end TrafficIndicator
