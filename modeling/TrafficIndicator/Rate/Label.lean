import TrafficIndicator.Rate.Decimal
import TrafficIndicator.Settings
/-!
What is shown of rates. The label of a rate is a short numeral and a unit; the number of places
falls as the rate grows within a unit, so that about three significant digits are shown. The
direction that dominates has an icon, and traffic below a threshold may hide all of it.
-/
namespace TrafficIndicator

inductive RateScale where
  | kilo
  | mega
  | giga
  deriving DecidableEq, Repr

namespace RateScale

def power : RateScale → Nat
  | .kilo => 3
  | .mega => 6
  | .giga => 9

def divisor (s : RateScale) : Nat := Nat.pow 10 s.power

def unitName : RateScale → RateUnit → String
  | .kilo, .bytes => "KB/s"
  | .mega, .bytes => "MB/s"
  | .giga, .bytes => "GB/s"
  | .kilo, .bits => "Kb/s"
  | .mega, .bits => "Mb/s"
  | .giga, .bits => "Gb/s"

end RateScale

structure RateTier where
  lower : Nat
  scale : RateScale
  places : Nat
  trimmed : Bool
  deriving DecidableEq, Repr

namespace RateTier

def all : List RateTier :=
  [⟨1000000000, .giga, 2, true⟩, ⟨100000000, .mega, 0, false⟩, ⟨10000000, .mega, 1, false⟩,
   ⟨1000000, .mega, 2, true⟩, ⟨100000, .kilo, 0, false⟩, ⟨10000, .kilo, 1, false⟩]

def least : RateTier := ⟨0, .kilo, 2, true⟩

def ofRate (value : Int) : RateTier :=
  (all.find? fun t => (t.lower : Int) ≤ value).getD least

end RateTier

structure Label where
  value : String
  unit : String
  deriving DecidableEq, Repr

namespace Label

/-- The rate in the units that are displayed; a negative rate counts as none. -/
def displayRate (rate : Int) (unit : RateUnit) : Nat :=
  match unit with
  | .bytes => rate.toNat
  | .bits => rate.toNat * 8

def ofRate (rate : Int) (unit : RateUnit) : Except Fault Label :=
  let shown := displayRate rate unit
  let tier := RateTier.ofRate shown
  match (Decimal.ofNat shown).divPowerOfTen tier.scale.power with
  | .error f => .error f
  | .ok quotient =>
    match quotient.fixed? tier.places tier.trimmed with
    | some numeral => .ok ⟨String.ofList numeral, tier.scale.unitName unit⟩
    | none => .error .decimalOutOfRange

example : (ofRate 1500000000 .bytes).toOption = some ⟨"1.5", "GB/s"⟩ := by decide +kernel

example : (ofRate 999999 .bytes).toOption = some ⟨"1000", "KB/s"⟩ := by decide +kernel

example : (ofRate 1250 .bits).toOption = some ⟨"10.0", "Kb/s"⟩ := by decide +kernel

example : (ofRate 12345 .bytes).toOption = some ⟨"12.3", "KB/s"⟩ := by decide +kernel

example : (ofRate (-5) .bytes).toOption = some ⟨"0", "KB/s"⟩ := by decide +kernel

end Label

inductive Direction where
  | idle
  | up
  | down
  | both
  deriving DecidableEq, Repr

namespace Direction

/-- The dominant direction and its rate. Equal rates show as both, with the received one. -/
def dominant (rx tx : Int) : Direction × Int :=
  if rx < tx then (.up, tx) else if tx < rx then (.down, rx) else (.both, rx)

def icon (rx tx : Int) : Direction :=
  if rx = 0 ∧ tx = 0 then .idle else (dominant rx tx).1

def glyph : Direction → String
  | .idle => "⇅"
  | .up => "↑"
  | .down => "↓"
  | .both => "↕"

end Direction

namespace Visibility

def autoHideThreshold : Int := 10000

def isAbove (rx tx : Int) (threshold : Int := autoHideThreshold) : Bool :=
  threshold < tx || threshold < rx

structure Inputs where
  enabled : Bool
  connected : Bool
  autoHide : Bool
  above : Bool
  locked : Bool
  hasText : Bool
  deriving DecidableEq, Repr

def Inputs.shown (i : Inputs) : Bool :=
  i.enabled && !i.locked && i.hasText && (!i.autoHide || i.above) && i.connected

end Visibility

end TrafficIndicator
