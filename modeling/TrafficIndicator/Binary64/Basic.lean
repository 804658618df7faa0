import TrafficIndicator.Text.Numeral
/-!
Binary64 numbers as words: a sign, an exponent field and a fraction. A finite word denotes
a rational number exactly; `ofRatio` goes back to the nearest word, a tie to the even one,
and to infinity from `2 ^ 1024 - 2 ^ 970` on. Decimal numerals are read so, and the names of
infinity and of the undefined number in any case.
-/
namespace TrafficIndicator

structure Binary64 where
  bits : UInt64
  deriving DecidableEq, Repr

namespace Binary64

def negative (x : Binary64) : Bool := x.bits.toNat / Nat.pow 2 63 = 1

def exponentField (x : Binary64) : Nat := x.bits.toNat / Nat.pow 2 52 % Nat.pow 2 11

def fraction (x : Binary64) : Nat := x.bits.toNat % Nat.pow 2 52

def isNaN (x : Binary64) : Bool := x.exponentField = 2047 && x.fraction ≠ 0

def isInfinite (x : Binary64) : Bool := x.exponentField = 2047 && x.fraction = 0

def toRat? (x : Binary64) : Option Rat :=
  if x.exponentField = 2047 then none
  else
    let significand := if x.exponentField = 0 then x.fraction else Nat.pow 2 52 + x.fraction
    let exponent : Int := (max x.exponentField 1 : Nat) - 1075
    let m : Int := if x.negative then -significand else significand
    if 0 ≤ exponent then some (m * (Nat.pow 2 exponent.toNat : Nat) : Int)
    else some (mkRat m (Nat.pow 2 (-exponent).toNat))

def ofMagnitude (minus : Bool) (magnitude : Nat) : Binary64 :=
  ⟨UInt64.ofNat ((if minus then Nat.pow 2 63 else 0) + magnitude)⟩

def infinityMagnitude : Nat := 2047 * Nat.pow 2 52

def zero (minus : Bool) : Binary64 := ofMagnitude minus 0

def infinity (minus : Bool) : Binary64 := ofMagnitude minus infinityMagnitude

def nan : Binary64 := ⟨0x7FF8000000000000⟩

def roundQuotient (n d : Nat) : Nat :=
  let q := n / d
  let r := n % d
  if 2 * r < d then q else if d < 2 * r then q + 1 else q + q % 2

def scaled (n d : Nat) (e : Int) : Nat × Nat :=
  if e < 0 then (n * Nat.pow 2 (-e).toNat, d) else (n, d * Nat.pow 2 e.toNat)

def lastPlace (n d : Nat) : Int :=
  let e : Int := (n.log2 : Int) - d.log2 - 52
  let (n', d') := scaled n d e
  max (-1074) (if n' / d' < Nat.pow 2 52 then e - 1 else e)

/-- The word nearest to `n / d`, with a sign. A carry out of the significand moves into
the exponent field as it should. -/
def ofRatio (minus : Bool) (n d : Nat) : Binary64 :=
  if n = 0 then zero minus
  else
    let e := lastPlace n d
    let (n', d') := scaled n d e
    let magnitude := (e + 1074).toNat * Nat.pow 2 52 + roundQuotient n' d'
    ofMagnitude minus (min magnitude infinityMagnitude)

def ofRat (q : Rat) : Binary64 := ofRatio (q.num < 0) q.num.natAbs q.den

/-- The number that the word nearest to `q` denotes. A number too large for every word stays
as it is. -/
def round (q : Rat) : Rat := (ofRat q).toRat?.getD q

/-- The word nearest to `m * 10 ^ e`. Numbers far outside the range are settled by their
size in powers of ten. -/
def ofDecimal (minus : Bool) (m : Nat) (e : Int) : Binary64 :=
  if m = 0 then zero minus
  else
    if 400 < (m.log2 : Int) * 30 / 100 + e then infinity minus
    else if (m.log2 + 1 : Int) * 31 / 100 + 1 + e < -400 then zero minus
    else if 0 ≤ e then ofRatio minus (m * Nat.pow 10 e.toNat) 1
    else ofRatio minus m (Nat.pow 10 (-e).toNat)

open Text

def lowerAscii (cs : List Char) : List Char := cs.map Char.toLower

def ofScientific (s : Scientific) : Binary64 :=
  ofDecimal s.negative (ofDigits s.digits) s.exponent

def read? (text : List Char) : Option Binary64 :=
  let body := trimWhere isPadding text
  let (minus, unsigned) := signed body
  let name := lowerAscii unsigned
  if name = "inf".toList ∨ name = "infinity".toList then some (infinity minus)
  else if name = "nan".toList then some nan
  else (Scientific.read body).map ofScientific

end Binary64

end TrafficIndicator
