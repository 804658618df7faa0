import TrafficIndicator.Binary64.Basic
import TrafficIndicator.Time.Scale
/-!
Time in binary64 numbers. Each operation rounds to the nearest number. A file keeps the time of
its last change in whole seconds and nanoseconds, and its stamp is that time read back as one
number, so that two times may share a stamp: times within a nanosecond, and times too far from
zero to be told apart.
-/
namespace TrafficIndicator

namespace Binary64

def toFloat (x : Binary64) : Float := Float.ofBits x.bits

def ofFloat (x : Float) : Binary64 := ⟨x.toBits⟩

def ofNat? (n : Nat) : Option Binary64 :=
  let x := ofRatio false n 1
  if x.isInfinite then none else some x

def floor (x : Binary64) : Except Fault Int :=
  match x.toRat? with
  | some q => .ok q.floor
  | none => .error (if x.isInfinite then .infiniteNotInteger else .undefinedNotInteger)

def perSecond (delta : Nat) (seconds : Float) : Except Fault Int :=
  match ofNat? delta with
  | none => .error .integerTooLarge
  | some d =>
    if seconds == 0 then .error .zeroDivisor
    else (ofFloat (d.toFloat / seconds + 0.5)).floor

end Binary64

instance : TimeScale Float where
  ofNat n := (Binary64.ofRatio false n 1).toFloat
  add := (· + ·)
  sub := (· - ·)
  before a b := a < b
  upTo a b := a ≤ b
  ofSeconds s := s * 1000.0
  toSeconds t := t / 1000.0
  tolerated t := t * 0.95
  perSecond delta elapsed := Binary64.perSecond delta (elapsed / 1000.0)

abbrev Stamp := Rat

namespace Stamp

/-- The nanoseconds that are kept of a time in seconds. Only the part behind the point is
rounded, and what is below a nanosecond is cut off. -/
def nanoseconds (seconds : Rat) : Int :=
  let whole : Int := seconds.num.tdiv seconds.den
  whole * 1000000000 + (Binary64.round ((seconds - whole) * 1000000000)).floor

/-- The stamp of a time in nanoseconds: the whole seconds and the rest are made binary64
numbers of their own and added. -/
def ofNanoseconds (n : Int) : Stamp :=
  let rest : Rat := (n % 1000000000 : Int)
  Binary64.round ((n / 1000000000 : Int) +
    Binary64.round (rest * Binary64.round (mkRat 1 1000000000)))

def ofSeconds (seconds : Rat) : Stamp := ofNanoseconds (nanoseconds seconds)

end Stamp

end TrafficIndicator
