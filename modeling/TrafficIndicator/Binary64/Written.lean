import TrafficIndicator.Binary64.Basic
import TrafficIndicator.Rate.Decimal
/-!
What a binary64 number is written as: the fewest decimal digits from which it is read back,
with a point among them or with a power of ten. Main fact: no form of it is an integer
numeral, for each has a point, an `e` or the `n` of the names of infinity and of the
undefined number.
-/
namespace TrafficIndicator.Binary64

open Decimal (digitsOf size)

def shifted (n d : Nat) (e : Int) : Nat × Nat :=
  if 0 ≤ e then (n * Nat.pow 10 e.toNat, d) else (n, d * Nat.pow 10 (-e).toNat)

def pointPlace (n d : Nat) : Int :=
  let p : Int := size n - size d
  let (n', d') := shifted n d (-p)
  if n' < d' then p else p + 1

def nextDecimals (n d : Nat) (digits : Nat) : List (Nat × Int) :=
  let e := pointPlace n d - digits
  let (n', d') := shifted n d (-e)
  [(roundQuotient n' d', e), (n' / d', e), (n' / d' + 1, e)]

/-- The shortest decimal from which a finite number is read back. Seventeen digits are always
enough. -/
def shortest (minus : Bool) (q : Rat) : Nat × Int :=
  let n := q.num.natAbs
  let all := (List.range 17).flatMap fun k => nextDecimals n q.den (k + 1)
  (all.find? fun (m, e) => ofDecimal minus m e = ofRatio minus n q.den).getD (0, 0)

/-- The digits with a point behind so many of them, or with a power of ten where the point would
lie too far off. -/
def layout (digits : List Char) (point : Int) : List Char :=
  if -4 < point ∧ point ≤ 16 then
    if point ≤ 0 then '0' :: '.' :: List.replicate (-point).toNat '0' ++ digits
    else if digits.length ≤ point then
      digits ++ List.replicate (point.toNat - digits.length) '0' ++ ['.', '0']
    else digits.take point.toNat ++ '.' :: digits.drop point.toNat
  else
    let power := digitsOf (point - 1).natAbs
    let fraction := if digits.length ≤ 1 then [] else '.' :: digits.drop 1
    digits.take 1 ++ fraction ++ 'e' :: (if point ≤ 0 then '-' else '+') ::
      (if power.length < 2 then '0' :: power else power)

def written (x : Binary64) : List Char :=
  let sign := if x.negative then ['-'] else []
  match x.toRat? with
  | some q =>
    let (m, e) := shortest x.negative q
    let digits := digitsOf m
    let significant := (digits.reverse.dropWhile (· = '0')).reverse
    sign ++ layout (if m = 0 then digits else significant) (digits.length + e)
  | none => if x.isInfinite then sign ++ "inf".toList else "nan".toList

example : written (ofDecimal false 1 (-1)) = "0.1".toList := by decide +kernel

example : written (ofDecimal true 1 22) = "-1e+22".toList := by decide +kernel

def isForeign (c : Char) : Bool := c = '.' || c = 'e' || c = 'n'

theorem exists_foreign_layout (digits : List Char) (point : Int) :
    ∃ c ∈ layout digits point, isForeign c = true := by
  rw [layout]
  split
  · refine ⟨'.', ?_, rfl⟩
    split
    · simp
    · split <;> simp
  · exact ⟨'e', by simp, rfl⟩

theorem exists_foreign_written (x : Binary64) : ∃ c ∈ x.written, isForeign c = true := by
  rw [written]
  split
  · rename_i q _
    obtain ⟨c, hc, hforeign⟩ := exists_foreign_layout _ _
    exact ⟨c, List.mem_append_right _ hc, hforeign⟩
  · split
    · exact ⟨'n', by simp, rfl⟩
    · exact ⟨'n', by simp, rfl⟩

end TrafficIndicator.Binary64
