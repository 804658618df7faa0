import TrafficIndicator.Binary64.Basic
import TrafficIndicator.Settings
/-!
The options of the program, how each is spelled, and its help text.
-/
namespace TrafficIndicator

/-- What an option holds: a value, or nothing at all. A bare separator behind the equals sign
of an option takes its value away. -/
inductive Given (α : Type) where
  | value (a : α)
  | nothing
  deriving DecidableEq, Repr

namespace Given

variable {α : Type}

def getD (g : Given α) (default : α) : α :=
  match g with
  | .value a => a
  | .nothing => default

def required (g : Given α) (f : Fault) : Except Fault α :=
  match g with
  | .value a => .ok a
  | .nothing => .error f

end Given

structure Options where
  /-- Seconds between samples. -/
  interval : Given Binary64 := .value (Binary64.ofRatio false 2 1)
  enabled : Bool := true
  autoHide : Bool := false
  unit : Given RateUnit := .value .bytes
  interface : Given (Option LooseText) := .value none
  exclude : Given LooseText := .value ""
  settingsFile : Given (Option LooseText) := .value none
  color : Given (Option LooseText) := .value none
  /-- Seconds between polls. -/
  poll : Given Binary64 := .value (Binary64.ofRatio false 1 1)
  logLevel : Given LooseText := .value "WARNING"
  deriving DecidableEq, Repr

namespace Options

def settings (o : Options) : Except Fault (List (LooseText × Value)) :=
  let switch (b : Bool) : Value := .int (if b then 1 else 0)
  (o.unit.required .noUnit).map fun unit =>
    [(.chars SettingKey.enabled.name, switch o.enabled),
     (.chars SettingKey.autoHide.name, switch o.autoHide),
     (.chars SettingKey.unit.name, switch (unit = .bits))]

end Options

namespace CommandLine

def program : String := "netindicator"

inductive Target where
  | help
  | interval
  | enabled
  | autoHide
  | unit
  | interface
  | exclude
  | settingsFile
  | color
  | poll
  | logLevel
  deriving DecidableEq, Repr

def Target.title : Target → String
  | .help => "-h/--help"
  | .interval => "--interval"
  | .enabled => "--enabled/--no-enabled"
  | .autoHide => "--autohide/--no-autohide"
  | .unit => "--unit"
  | .interface => "--interface"
  | .exclude => "--exclude"
  | .settingsFile => "--config"
  | .color => "--color"
  | .poll => "--poll"
  | .logLevel => "--log-level"

structure Flag where
  spelling : String
  target : Target
  switch : Option Bool := none
  deriving DecidableEq, Repr

def helpFlag : Flag := ⟨"-h", .help, none⟩

def flags : List Flag :=
  [helpFlag, ⟨"--help", .help, none⟩, ⟨"--interval", .interval, none⟩,
   ⟨"--enabled", .enabled, some true⟩, ⟨"--no-enabled", .enabled, some false⟩,
   ⟨"--autohide", .autoHide, some true⟩, ⟨"--no-autohide", .autoHide, some false⟩,
   ⟨"--unit", .unit, none⟩, ⟨"--interface", .interface, none⟩, ⟨"--exclude", .exclude, none⟩,
   ⟨"--config", .settingsFile, none⟩, ⟨"--color", .color, none⟩, ⟨"--poll", .poll, none⟩,
   ⟨"--log-level", .logLevel, none⟩]

def Flag.isShort (f : Flag) : Bool := f.spelling.length = 2

def Flag.wantsValue (f : Flag) : Bool := f.target ≠ .help && f.switch.isNone

def usage : String :=
  "usage: netindicator [-h] [--interval INTERVAL] [--enabled | --no-enabled]\n" ++
  "                    [--autohide | --no-autohide] [--unit \x7bbits,bytes\x7d]\n" ++
  "                    [--interface INTERFACE] [--exclude EXCLUDE]\n" ++
  "                    [--config FILE] [--color COLOR] [--poll POLL]\n" ++
  "                    [--log-level LOG_LEVEL]\n"

def helpText : String :=
  usage ++
  "\nNetwork traffic indicator for the terminal\n" ++
  "\noptions:\n" ++
  "  -h, --help            show this help message and exit\n" ++
  "  --interval INTERVAL   Sampling interval in seconds (default: 2.0)\n" ++
  "  --enabled, --no-enabled\n" ++
  "                        Show the indicator (default: on)\n" ++
  "  --autohide, --no-autohide\n" ++
  "                        Hide while both directions stay under 10 KB/s\n" ++
  "                        (default: off)\n" ++
  "  --unit \x7bbits,bytes\x7d   Show bytes/s or bits/s (default: bytes)\n" ++
  "  --interface INTERFACE\n" ++
  "                        Count a single NIC only (e.g. enp0s31f6)\n" ++
  "  --exclude EXCLUDE     Comma-separated NICs to skip (e.g. virbr0,tailscale0)\n" ++
  "  --config FILE         JSON file with networktraffic.* keys, re-read on\n" ++
  "                        change\n" ++
  "  --color COLOR         Text color, any plotext color name (e.g. cyan)\n" ++
  "  --poll POLL           Seconds between connectivity/config checks; lock state\n" ++
  "                        is checked at most every 5 s (default: 1.0)\n" ++
  "  --log-level LOG_LEVEL\n" ++
  "                        Log level for stderr diagnostics (default: WARNING)\n"

end CommandLine

end TrafficIndicator
