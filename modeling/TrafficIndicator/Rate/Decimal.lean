import TrafficIndicator.Fault
import TrafficIndicator.Text.Numeral
/-!
Decimal numbers: a sign that zero keeps, a coefficient and a power of ten. `divPowerOfTen`
rounds to the working precision with ties to even, `quantize?` to a number of places with
ties away from zero, and `plain` writes the number without an exponent. A result has at most
`precision` digits, but for one that was carried to the next power of ten, and its first digit
has no exponent above `maxExponent`: where there is no such result, there is none.
-/
namespace TrafficIndicator

structure Decimal where
  negative : Bool
  coefficient : Nat
  exponent : Int
  deriving DecidableEq, Repr

namespace Decimal

def precision : Nat := 28

def maxExponent : Int := 999999

def leastExponent : Int := -1000026

def digitsOf (n : Nat) : List Char := Nat.toDigits 10 n

/-- A number over the largest power of a base that is not above it, and the exponent of that
power. The base is squared from turn to turn. -/
def leading (n : Nat) : Nat → Nat → Nat × Nat
  | 0, _ => (n, 0)
  | turns + 1, base =>
    if n < base then (n, 0)
    else
      let (q, e) := leading n turns (base * base)
      if q < base then (q, 2 * e) else (q / base, 2 * e + 1)

/-- The number of decimal digits of a coefficient; zero has one. -/
def size (n : Nat) : Nat := (leading n (Nat.log2 n + 1) 10).2 + 1

def ofNat (n : Nat) : Decimal := ⟨false, n, 0⟩

def dropEven (n k : Nat) : Nat :=
  let q := n / Nat.pow 10 k
  let r := n % Nat.pow 10 k
  if 2 * r < Nat.pow 10 k then q else if Nat.pow 10 k < 2 * r then q + 1 else q + q % 2

def dropUp (n k : Nat) : Nat := (n + Nat.pow 10 k / 2) / Nat.pow 10 k

def adjusted (d : Decimal) : Int := d.exponent + size d.coefficient - 1

def toPrecision (d : Decimal) : Except Fault Decimal :=
  let extra := size d.coefficient - precision
  let r := { d with coefficient := dropEven d.coefficient extra, exponent := d.exponent + extra }
  if r.coefficient ≠ 0 ∧ maxExponent < r.adjusted then .error .decimalOverflow else .ok r

def divPowerOfTen (d : Decimal) (k : Nat) : Except Fault Decimal :=
  { d with exponent := d.exponent - k }.toPrecision

/-- The coefficient at `places` decimal places; `none` where so many digits would have to
be appended that the precision is exceeded. -/
def rescaled? (d : Decimal) (places : Int) : Option Nat :=
  let shift := d.exponent + places
  if d.coefficient = 0 then some 0
  else if 0 ≤ shift then
    if precision < size d.coefficient + shift.toNat then none
    else some (d.coefficient * Nat.pow 10 shift.toNat)
  else if size d.coefficient < (-shift).toNat then some 0
  else some (dropUp d.coefficient (-shift).toNat)

def quantize? (d : Decimal) (places : Int) : Option Decimal :=
  match d.rescaled? places with
  | none => none
  | some c =>
    if precision < size c ∨ maxExponent < (size c : Int) - 1 - places then none
    else some ⟨d.negative, c, -places⟩

def withPoint (ds : List Char) (places : Nat) : List Char :=
  let ds := List.replicate (places + 1 - ds.length) '0' ++ ds
  ds.take (ds.length - places) ++ '.' :: ds.drop (ds.length - places)

def plain (d : Decimal) : List Char :=
  let ds := digitsOf d.coefficient
  let body :=
    if d.exponent < 0 then withPoint ds (-d.exponent).toNat
    else if d.coefficient = 0 then ds
    else ds ++ List.replicate d.exponent.toNat '0'
  if d.negative then '-' :: body else body

def dropTrailing (c : Char) (cs : List Char) : List Char :=
  (cs.reverse.dropWhile (· = c)).reverse

def trimFraction (cs : List Char) : List Char :=
  if cs.contains '.' then
    let cs := dropTrailing '0' cs
    if cs.getLast? = some '.' then cs.dropLast else cs
  else cs

def fixed? (d : Decimal) (places : Int) (trimmed : Bool) : Option (List Char) :=
  (d.quantize? places).map fun r => if trimmed then trimFraction r.plain else r.plain

/-- The number of places from the point at which a result may be cut, in either direction,
is at most this. -/
def placesLimit : Nat := 2000054

/-- The places that are used when a number of places is asked for. Beyond the least exponent
there are no more of them. -/
def effectivePlaces (places : Int) : Except Fault Int :=
  if placesLimit < places.natAbs then .error .decimalOutOfRange
  else if maxExponent < -places then .error .decimalOverflow
  else .ok (min places (-leastExponent))

inductive Datum where
  | number (d : Decimal)
  | infinite
  | undefined (negative signaling : Bool) (payload : List Nat)
  deriving DecidableEq, Repr

def payload? (cs : List Char) : Option (List Nat) :=
  (cs.mapM Text.decimalValue?).map fun ds => ds.dropWhile (· = 0)

def literalMaxExponent : Int := 999999999999999999

def literalLeastExponent : Int := -1999999999999999997

def ofScientific? (s : Text.Scientific) : Option Decimal :=
  let c := Text.ofDigits s.digits
  if literalMaxExponent < s.exponent + size c - 1 ∨ s.exponent < literalLeastExponent then none
  else some ⟨s.negative, c, s.exponent⟩

/-- Reads a decimal literal. Blanks around it and underscores in it are ignored. -/
def Datum.read? (text : List Char) : Option Datum :=
  let body := (Text.trim text).filter (· ≠ '_')
  let (minus, unsigned) := Text.signed body
  let name := unsigned.map Char.toLower
  if name = "inf".toList ∨ name = "infinity".toList then some .infinite
  else if name.take 4 = "snan".toList then
    (payload? (name.drop 4)).map fun p => .undefined minus true p
  else if name.take 3 = "nan".toList then
    (payload? (name.drop 3)).map fun p => .undefined minus false p
  else ((Text.Scientific.read body).bind ofScientific?).map .number

def keptPayload (payload : List Nat) : List Nat :=
  (payload.drop (payload.length - precision)).dropWhile (· = 0)

/-- As `fixed?`; an undefined number that does not signal is written by name, and an
infinite one has no form. -/
def Datum.fixed? (x : Datum) (places : Int) (trimmed : Bool) : Option (List Char) :=
  match x with
  | .number d => d.fixed? places trimmed
  | .infinite => none
  | .undefined _ true _ => none
  | .undefined minus false payload =>
    some ((if minus then "-NaN" else "NaN").toList ++
      (keptPayload payload).map fun d => Char.ofNat (48 + d))

/-- The form of a datum at a number of places, which may be more than there are. -/
def Datum.fixed (x : Datum) (places : Int) (trimmed : Bool) : Except Fault (List Char) :=
  match effectivePlaces places with
  | .error f => .error f
  | .ok places =>
    match x.fixed? places trimmed with
    | some cs => .ok cs
    | none => .error .decimalOutOfRange

end Decimal

end TrafficIndicator
