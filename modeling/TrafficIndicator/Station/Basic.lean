import TrafficIndicator.Indicator.Basic
import TrafficIndicator.Timer.Loop
import TrafficIndicator.Timer.Slots
import TrafficIndicator.World.Basic
/-!
A station: a loop on which the feeds that have to be asked again and again run beside
whatever listens to them. A watch asks its feed at once and then at each interval, and tells
the listener when the answer changes. All watches of one feed share one timer slot.
-/
namespace TrafficIndicator

inductive Feed where
  | interfaces
  | session
  | settingsFile
  deriving DecidableEq, Repr

inductive Sighting where
  | flag (b : Bool)
  | stamp (s : Option Stamp)
  deriving DecidableEq

structure Watch where
  feed : Feed
  active : Bool := true
  last : Option Sighting := none

/-- What is remembered of the settings file: the entries that were last read and the stamp
at which it was last looked into. -/
structure FileMemory where
  entries : List (LooseText × Value) := []
  stamp : Option Stamp := none
  /-- Whether changed entries are told to anyone. -/
  listening : Bool := false

structure Station (τ ρ : Type) where
  world : World := {}
  slots : Slots Feed := {}
  watches : List Watch := []
  file : FileMemory := {}
  asked : List LooseText := []
  notices : List (Notice τ) := []
  /-- Changes of the world that are still to come, each with its time in seconds. -/
  upcoming : List (τ × World.Change) := []
  owner : ρ

inductive Job where
  | own (kind : TimerKind)
  | poll (feed : Feed) (watch : Nat)
  deriving DecidableEq, Repr

namespace Station

structure Setup (τ : Type) where
  interval : Feed → τ
  interfacesPath : String := "/sys/class/net"
  countersPath : String := "/proc/net/dev"
  settingsPath : LooseText := ""
  /-- How many lists and objects may lie in one another in the settings file. -/
  nesting : Option Nat := none
  /-- The values of settings that vanish from the settings file. -/
  defaults : List (LooseText × Value) := []
  session : LooseText := ""

abbrev Act (τ ρ α : Type) := Loop.Act τ Job (Station τ ρ) α

variable {τ ρ : Type}

def modifyFile (f : FileMemory → FileMemory) : Act τ ρ Unit :=
  Loop.modifyHost fun s => { s with file := f s.file }

def report (notices : List (Notice τ)) : Act τ ρ Unit :=
  Loop.modifyHost fun s => { s with notices := s.notices ++ notices }

def observe {α : Type} (o : Observed τ α) : Act τ ρ α := do
  report o.notices
  match o.outcome with
  | .ok a => return a
  | .error f => throw (.fault f)

end Station

end TrafficIndicator
