import TrafficIndicator.Log.Level
import TrafficIndicator.Value.Basic
/-!
What the indicator reports about its work. A notice has a level, a wording with places for
its arguments, and the arguments.
-/
namespace TrafficIndicator

inductive Problem where
  | missing
  | denied
  | timedOut
  | isDirectory
  | notDirectory
  | malformed
  deriving DecidableEq, Repr

inductive Notice (τ : Type) where
  | loopIdle
  | attached (interval : τ)
  | detached
  | unknownKey (key : LooseText)
  | settingTaken (key : LooseText) (value : Value)
  | connection (available : Bool)
  | tintPinned (color : Value)
  | visibility (shown : Bool)
  | interfacesUnlisted (path : String) (problem : Problem)
  | probeUnavailable (problem : Problem)
  | probeFailed (code : Int) (complaint : LooseText)
  | fileMissing (path : LooseText)
  | fileUnreadable (path : LooseText) (problem : Problem)
  | fileNotObject (path : LooseText)
  | settingRead (key : LooseText) (value : Value)

namespace Notice

variable {τ : Type}

def level : Notice τ → LogLevel
  | .attached _ | .detached => .info
  | .fileMissing _ | .fileUnreadable .. | .fileNotObject _ => .warning
  | _ => .debug

def wording : Notice τ → String
  | .loopIdle => "No pending timers, leaving event loop"
  | .attached _ => "Indicator attached (interval %.0f ms)"
  | .detached => "Indicator detached"
  | .unknownKey _ => "Ignoring unknown config key %r"
  | .settingTaken .. => "Config %s = %r"
  | .connection _ => "Connection available: %s"
  | .tintPinned _ => "Tint pinned; ignoring %r"
  | .visibility _ => "Indicator %s"
  | .interfacesUnlisted .. => "Cannot list %s: %s"
  | .probeUnavailable _ => "loginctl unavailable: %s"
  | .probeFailed .. => "loginctl exited with %d: %s"
  | .fileMissing _ => "Config file %s not found"
  | .fileUnreadable .. => "Ignoring unreadable config file %s: %s"
  | .fileNotObject _ => "Config file %s must hold a JSON object"
  | .settingRead .. => "Config %s -> %r"

inductive Argument (τ : Type) where
  | value (v : Value)
  | time (t : τ)
  | problem (p : Problem)

def arguments : Notice τ → List (Argument τ)
  | .loopIdle | .detached => []
  | .attached interval => [.time interval]
  | .unknownKey key => [.value (.text key)]
  | .settingTaken key v | .settingRead key v => [.value (.text key), .value v]
  | .connection b => [.value (.bool b)]
  | .tintPinned color => [.value color]
  | .visibility b => [.value (.ofString (if b then "shown" else "hidden"))]
  | .interfacesUnlisted path p => [.value (.ofString path), .problem p]
  | .fileUnreadable path p => [.value (.text path), .problem p]
  | .probeUnavailable p => [.problem p]
  | .probeFailed code complaint => [.value (.int code), .value (.text complaint)]
  | .fileMissing path | .fileNotObject path => [.value (.text path)]

def passes (threshold : Int) (n : Notice τ) : Bool := threshold ≤ n.level.number

end Notice

end TrafficIndicator
