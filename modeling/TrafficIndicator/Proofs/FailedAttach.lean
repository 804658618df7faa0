import TrafficIndicator.Proofs.HeldPolls
import TrafficIndicator.Proofs.SettingsHistory

/-!
Where a collaborator cannot be watched, attaching breaks off and the indicator stays attached,
with what it has armed until then. Detaching it is the way out: nothing waits then, every watch
that it was given is over, and to attach it again is to attach a new indicator with its settings,
whatever was remembered of the settings file. The watch that failed was not given to it. Nobody
ends it, and the settings file, if it was its watch, goes on to tell what a reading finds.
-/
namespace TrafficIndicator

namespace Panel

open Loop Indicator

variable {τ : Type} [TimeScale τ] {finite : τ → Prop} {setup : Setup τ} {l l' m : Running τ}

def Filed (l : Running τ) : Prop := Listed l.host.owner.watches (feeds l) .settingsFile

def filed : Options := { settingsFile := .value (some "cfg.json") }

def filedPlan : Application.Plan where
  interval := Binary64.ofRatio false 2 1
  poll := Binary64.ofRatio false 1 1
  filter := {}
  settings := [("networktraffic.enabled", .int 1), ("networktraffic.autohide", .int 0),
    ("networktraffic.unittype", .int 0)]
  settingsPath := "cfg.json"
  color := none

def filedSetup : Setup Rat := Application.setup {} ⟨2, 1⟩ "" filedPlan

end Panel

end TrafficIndicator
