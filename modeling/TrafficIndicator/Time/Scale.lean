import TrafficIndicator.Fault
/-!
The arithmetic of time that the indicator needs, in milliseconds unless said otherwise.
Rounded numbers run the program. Rational ones, where no operation rounds, give the same text
an exact reading.
-/
namespace TrafficIndicator

class TimeScale (τ : Type) where
  ofNat : Nat → τ
  add : τ → τ → τ
  sub : τ → τ → τ
  before : τ → τ → Bool
  upTo : τ → τ → Bool
  ofSeconds : τ → τ
  toSeconds : τ → τ
  /-- The shortest interval that still counts as the given one: nineteen twentieths. -/
  tolerated : τ → τ
  /-- The nearest integer to `delta` per second over the elapsed milliseconds, a half going
  up; `delta` is positive. -/
  perSecond : (delta : Nat) → (elapsed : τ) → Except Fault Int

namespace TimeScale

variable {τ : Type} [TimeScale τ]

def zero : τ := ofNat 0

/-- The later of two times; the first where they do not compare. -/
def later (a b : τ) : τ := if before a b then b else a

def delay (d : τ) : τ := later zero d

end TimeScale

def exactRate (delta : Nat) (elapsed : Rat) : Int := (delta * 1000 / elapsed + 1 / 2).floor

instance : TimeScale Rat where
  ofNat n := n
  add := (· + ·)
  sub := (· - ·)
  before a b := a < b
  upTo a b := a ≤ b
  ofSeconds s := s * 1000
  toSeconds t := t / 1000
  tolerated t := t * 19 / 20
  perSecond delta elapsed :=
    if elapsed = 0 then .error .zeroDivisor else .ok (exactRate delta elapsed)

theorem exactRate_le (delta : Nat) (elapsed : Rat) :
    (exactRate delta elapsed : Rat) ≤ delta * 1000 / elapsed + 1 / 2 :=
  Rat.floor_le _

end TrafficIndicator
