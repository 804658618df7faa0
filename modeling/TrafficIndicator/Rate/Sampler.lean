import TrafficIndicator.Time.Scale
/-!
Rates from two readings of the byte counters. Only one earlier reading, the baseline, is
kept. A reading that comes too early is skipped and leaves the baseline, so a short
interval never shows as a burst. Counters that went backwards count as no traffic.
-/
namespace TrafficIndicator

structure Reading (τ : Type) where
  rx : Int
  tx : Int
  time : τ
  deriving DecidableEq, Repr

structure RateSample where
  rx : Int := 0
  tx : Int := 0
  deriving DecidableEq, Repr

def RateSample.idle : RateSample := {}

variable {τ : Type} [TimeScale τ]

def directionRate (before now : Int) (elapsed : τ) : Except Fault Int :=
  let delta := (now - before).toNat
  if delta = 0 then .ok 0 else TimeScale.perSecond delta elapsed

namespace Reading

def elapsed (previous now : Reading τ) : τ := TimeScale.sub now.time previous.time

def tooEarly (previous now : Reading τ) (interval : τ) : Bool :=
  let e := previous.elapsed now
  TimeScale.upTo e TimeScale.zero || TimeScale.before e (TimeScale.tolerated interval)

def rates (previous now : Reading τ) : Except Fault RateSample :=
  match directionRate previous.rx now.rx (previous.elapsed now) with
  | .error f => .error f
  | .ok rx =>
    match directionRate previous.tx now.tx (previous.elapsed now) with
    | .error f => .error f
    | .ok tx => .ok ⟨rx, tx⟩

end Reading

/-- The rates between two readings; `none` without an earlier one, or too early. -/
def rates? (previous : Option (Reading τ)) (now : Reading τ) (interval : τ) :
    Except Fault (Option RateSample) :=
  match previous with
  | none => .ok none
  | some p => if p.tooEarly now interval then .ok none else (p.rates now).map some

structure Sampler (τ : Type) where
  interval : τ
  baseline : Option (Reading τ) := none

namespace Sampler

def reset (s : Sampler τ) : Sampler τ := { s with baseline := none }

/-- Takes a reading: the rates since the baseline, if there are any, and the sampler after
it. A reading whose rates cannot be computed changes nothing. -/
def take (s : Sampler τ) (now : Reading τ) : Except Fault (Option RateSample × Sampler τ) :=
  match s.baseline with
  | none => .ok (none, { s with baseline := some now })
  | some p =>
    match rates? (some p) now s.interval with
    | .error f => .error f
    | .ok none => .ok (none, s)
    | .ok (some r) => .ok (some r, { s with baseline := some now })

end Sampler

end TrafficIndicator
