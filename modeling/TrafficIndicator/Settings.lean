import TrafficIndicator.Value.Reading
/-!
The settings of the indicator and the keyed values that change them. Each key governs one
field; an unknown key changes nothing.
-/
namespace TrafficIndicator

inductive RateUnit where
  | bytes
  | bits
  deriving DecidableEq, Repr

structure Settings where
  enabled : Bool := false
  autoHide : Bool := false
  unit : RateUnit := .bytes
  deriving DecidableEq, Repr

inductive SettingKey where
  | enabled
  | autoHide
  | unit
  deriving DecidableEq, Repr

namespace SettingKey

def name : SettingKey → String
  | .enabled => "networktraffic.enabled"
  | .autoHide => "networktraffic.autohide"
  | .unit => "networktraffic.unittype"

def all : List SettingKey := [.enabled, .autoHide, .unit]

def ofText? (t : LooseText) : Option SettingKey :=
  all.find? fun k => t = .chars k.name

end SettingKey

namespace Settings

/-- The settings after a keyed value, as far as reading it does not fail; `none` for an unknown
key. -/
def apply (limit : Option Nat) (s : Settings) (key : LooseText) (v : Value) :
    Except Fault (Option Settings) :=
  match SettingKey.ofText? key with
  | none => .ok none
  | some .enabled => (v.parseSwitch limit false).map fun b => some { s with enabled := b }
  | some .autoHide => (v.parseSwitch limit false).map fun b => some { s with autoHide := b }
  | some .unit =>
    (v.parseInteger limit 0).map fun (n : Int) =>
      some { s with unit := if n = 0 then .bytes else .bits }

theorem apply_ok {limit : Option Nat} {s s' : Settings} {key : LooseText} {v : Value}
    (h : s.apply limit key v = .ok (some s')) :
    ∃ k, SettingKey.ofText? key = some k ∧ (k ≠ .enabled → s'.enabled = s.enabled) := by
  have hfield : ∀ {α : Type} {r : Except Fault α} {field : α → Settings},
      r.map (fun a => some (field a)) = .ok (some s') → ∃ a, field a = s' := by
    intro α r field hr
    cases r with
    | error f => cases hr
    | ok a => exact ⟨a, by cases hr; rfl⟩
  rw [apply] at h
  split at h
  · cases h
  · exact ⟨_, ‹_›, fun hk => absurd rfl hk⟩
  · obtain ⟨b, rfl⟩ := hfield h
    exact ⟨_, ‹_›, fun _ => rfl⟩
  · obtain ⟨n, rfl⟩ := hfield h
    exact ⟨_, ‹_›, fun _ => rfl⟩

end Settings

end TrafficIndicator
