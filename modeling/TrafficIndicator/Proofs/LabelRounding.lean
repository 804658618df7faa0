import Mathlib.Algebra.Order.Floor.Semifield
import Mathlib.Data.Rat.Floor
import Mathlib.Tactic.NormNum
import Mathlib.Tactic.FieldSimp
import TrafficIndicator.Proofs.Numerals
import TrafficIndicator.Proofs.WorkingPrecision

/-!
A display rate below `10 ^ 28` is divided exactly, so it is rounded once, and its label is the
numeral of the rounded quotient. The ranges of display rates decide the unit, the number of
places and whether zeros behind the point are trimmed.
-/
namespace TrafficIndicator

namespace Decimal

open Text

def value (d : Decimal) : ℚ :=
  (if d.negative then -1 else 1) * d.coefficient * (10 : ℚ) ^ d.exponent

def roundedHalfUp (q : ℚ) (places : Nat) : ℚ := ⌊q * 10 ^ places + 1 / 2⌋ / 10 ^ places

theorem dropUp_eq_floor (n : Nat) {k : Nat} (h : 0 < k) :
    (dropUp n k : Int) = ⌊(n : ℚ) / 10 ^ k + 1 / 2⌋ := by
  have hh := half_pow_ten h
  have hpow : (10 : ℚ) ^ k = 2 * (Nat.pow 10 k / 2 : Nat) := by exact_mod_cast hh.symm
  have hpos : (0 : ℚ) < (Nat.pow 10 k / 2 : Nat) := by
    have : (0 : ℚ) < 10 ^ k := by positivity
    linarith
  have hq : (n : ℚ) / 10 ^ k + 1 / 2 =
      ((n + Nat.pow 10 k / 2 : Nat) : ℚ) / ((10 ^ k : Nat) : ℚ) := by
    push_cast
    rw [hpow]
    field_simp
  rw [hq, ← Int.natCast_floor_eq_floor (by positivity), Nat.floor_div_eq_div]
  rfl

/-- A text writes a number: it reads back as the number, and is the digits of the whole part,
with so many digits behind a point, or with at most so many and no zero at the end. No point
is written without digits behind it. -/
def Writes (text : List Char) (number : ℚ) (places : Nat) (trimmed : Bool) : Prop :=
  (∃ d, Datum.read? text = some (.number d) ∧ d.value = number) ∧
    ∃ fraction, text = numeral ⌊number⌋₊ fraction ∧ Decimals fraction ∧
      if trimmed then fraction.length ≤ places ∧ fraction.getLast? ≠ some 0
      else fraction.length = places

theorem value_places (n places : Nat) : value ⟨false, n, -(places : Int)⟩ = n / 10 ^ places := by
  simp [value, div_eq_mul_inv]

theorem floor_places (n places : Nat) : ⌊(n : ℚ) / 10 ^ places⌋₊ = n / 10 ^ places := by
  have h := Nat.floor_div_eq_div (K := ℚ) n (10 ^ places)
  rwa [Nat.cast_pow] at h

/-- A number of places that is not negative as a text, without the zeros at the end of its
fraction if it is trimmed. -/
def written (n places : Nat) (trimmed : Bool) : List Char :=
  numeral (n / 10 ^ places)
    (if trimmed then (lastDigits places n).rdropWhile (· = 0) else lastDigits places n)

theorem joined_lastDigits (n places : Nat) :
    joined (n / 10 ^ places) (lastDigits places n) = n := by
  rw [joined, length_lastDigits, ofDigits_lastDigits]

theorem read?_written_fixed {n places : Nat} (hn : n < 10 ^ precision) (hp : places ≤ precision) :
    Datum.read? (written n places false) = some (.number ⟨false, n, -(places : Int)⟩) := by
  have hs : size n ≤ precision := (size_le_iff (by decide)).mpr hn
  have hr := read?_numeral (n / 10 ^ places) (decimals_lastDigits places n)
    (by rwa [joined_lastDigits]) (by rwa [length_lastDigits])
  rwa [joined_lastDigits, length_lastDigits] at hr

theorem read?_written_trimmed {n places : Nat} (hn : n < 10 ^ precision) (hp : places ≤ precision) :
    ∃ c kept k, kept.length + k = places ∧ c * 10 ^ k = n ∧
      (lastDigits places n).rdropWhile (· = 0) = kept ∧
      Datum.read? (written n places true) = some (.number ⟨false, c, -(kept.length : Int)⟩) := by
  have hl := length_lastDigits places n
  have hv := joined_lastDigits n places
  have hd := (decimals_lastDigits places n).rdropWhile fun d => d = 0
  rw [written, if_pos rfl]
  obtain ⟨k, hk⟩ := eq_rdropWhile_append (lastDigits places n)
  generalize (lastDigits places n).rdropWhile (· = 0) = kept at hk hd
  rw [hk, List.length_append, List.length_replicate] at hl
  rw [hk, joined, ofDigits_append_mul, ofDigits_replicate_zero, List.length_append,
    List.length_replicate, pow_add] at hv
  have hc : joined (n / 10 ^ places) kept * 10 ^ k = n := by
    rw [joined]
    linarith
  have hle : joined (n / 10 ^ places) kept ≤ n :=
    (Nat.le_mul_of_pos_right _ (Nat.pow_pos (by decide))).trans_eq hc
  exact ⟨_, kept, k, hl, hc, rfl,
    read?_numeral _ hd ((size_le_iff (by decide)).mpr (hle.trans_lt hn)) (by omega)⟩

theorem writes_written {n places : Nat} (trimmed : Bool) (hn : n < 10 ^ precision)
    (hp : places ≤ precision) :
    Writes (written n places trimmed) (n / 10 ^ places) places trimmed := by
  have hd := decimals_lastDigits places n
  cases trimmed with
  | false =>
    refine ⟨⟨_, read?_written_fixed hn hp, value_places n places⟩, lastDigits places n, ?_, hd, ?_⟩
    · rw [floor_places]
      rfl
    · simp
  | true =>
    obtain ⟨c, kept, k, hl, hc, hk, hr⟩ := read?_written_trimmed hn hp
    refine ⟨⟨_, hr, ?_⟩, kept, ?_, hk ▸ hd.rdropWhile _, ?_⟩
    · rw [value_places, ← hl, ← hc, pow_add]
      push_cast
      field_simp
    · rw [floor_places, written, if_pos rfl, hk]
    · rw [if_pos rfl]
      exact ⟨by omega, hk ▸ getLast?_rdropWhile _⟩

/-- A number that is brought to its places where the precision suffices is written there, with the
sign that it had. -/
theorem fixed?_of_quantize? {d : Decimal} {negative : Bool} {n places : Nat} (trimmed : Bool)
    (h : d.quantize? places =
      if n < 10 ^ precision then some ⟨negative, n, -(places : Int)⟩ else none) :
    d.fixed? places trimmed =
      if n < 10 ^ precision then some (withSign negative (written n places trimmed)) else none := by
  rw [fixed?, h]
  by_cases hn : n < 10 ^ precision
  · rw [if_pos hn, if_pos hn, Option.map_some, plain_places]
    cases trimmed with
    | false => rfl
    | true =>
      rw [if_pos rfl, trim_fraction_withSign, trim_fraction_numeral _ (decimals_lastDigits _ _),
        written, if_pos rfl]
  · rw [if_neg hn, if_neg hn, Option.map_none]

/-- A whole number divided by a power of ten is written as its quotient rounded twice, if the
precision suffices for the digits that are left. -/
theorem fixed?_divPowerOfTen {n k places : Nat} (trimmed : Bool) (hp : places < k) {q : Decimal}
    (hq : (ofNat n).divPowerOfTen k = .ok q) :
    q.fixed? places trimmed =
      if dropUp (precise n) (k - places) < 10 ^ precision then
        some (written (dropUp (precise n) (k - places)) places trimmed)
      else none :=
  fixed?_of_quantize? trimmed (quantize?_divPowerOfTen hp hq)

theorem roundedHalfUp_div {n k places : Nat} (h : places < k) :
    roundedHalfUp (n / 10 ^ k) places = (dropUp n (k - places) : ℚ) / 10 ^ places := by
  have hpow : (10 : ℚ) ^ k = 10 ^ (k - places) * 10 ^ places := by
    rw [← pow_add, Nat.sub_add_cancel h.le]
  have hq : (n : ℚ) / 10 ^ k * 10 ^ places = n / 10 ^ (k - places) := by
    rw [hpow]
    field_simp
  rw [roundedHalfUp, hq, ← dropUp_eq_floor n (by omega), Int.cast_natCast]

end Decimal

open Decimal

def divisorAt (shown : Nat) : Nat :=
  if shown < 10 ^ 6 then 10 ^ 3 else if shown < 10 ^ 9 then 10 ^ 6 else 10 ^ 9

def placesAt (shown : Nat) : Nat :=
  if shown < 10 ^ 4 then 2 else if shown < 10 ^ 5 then 1 else if shown < 10 ^ 6 then 0
  else if shown < 10 ^ 7 then 2 else if shown < 10 ^ 8 then 1 else if shown < 10 ^ 9 then 0
  else 2

/-- The name of the unit in which a display rate is shown. -/
def unitAt (shown : Nat) : RateUnit → String
  | .bytes => if shown < 10 ^ 6 then "KB/s" else if shown < 10 ^ 9 then "MB/s" else "GB/s"
  | .bits => if shown < 10 ^ 6 then "Kb/s" else if shown < 10 ^ 9 then "Mb/s" else "Gb/s"

/-- A label shows a display rate: it names the unit of its range, and its numeral is the
quotient by that unit, rounded half upwards at the places of the range. Zeros are trimmed where
there are two places. -/
def Label.Shows (l : Label) (shown : Nat) (unit : RateUnit) : Prop :=
  l.unit = unitAt shown unit ∧
    Writes l.value.toList (roundedHalfUp (shown / divisorAt shown) (placesAt shown))
      (placesAt shown) (placesAt shown = 2)

namespace RateTier

theorem find_cons (n : Nat) (t : RateTier) (ts : List RateTier) :
    ((t :: ts).find? fun t => (t.lower : Int) ≤ (n : Int)).getD least =
      if t.lower ≤ n then t else (ts.find? fun t => (t.lower : Int) ≤ (n : Int)).getD least := by
  by_cases h : t.lower ≤ n
  · rw [List.find?_cons_of_pos (by simpa using h), if_pos h]
    rfl
  · rw [List.find?_cons_of_neg (by simpa using h), if_neg h]

theorem ofRate_natCast (n : Nat) :
    ofRate n =
      if 10 ^ 9 ≤ n then ⟨1000000000, .giga, 2, true⟩
      else if 10 ^ 8 ≤ n then ⟨100000000, .mega, 0, false⟩
      else if 10 ^ 7 ≤ n then ⟨10000000, .mega, 1, false⟩
      else if 10 ^ 6 ≤ n then ⟨1000000, .mega, 2, true⟩
      else if 10 ^ 5 ≤ n then ⟨100000, .kilo, 0, false⟩
      else if 10 ^ 4 ≤ n then ⟨10000, .kilo, 1, false⟩
      else least := by
  simp only [ofRate, all, find_cons]
  rfl

/-- The tier of a display rate has the divisor, the places and the unit of its range. -/
theorem ofRate_ranges (n : Nat) :
    10 ^ (ofRate n).scale.power = divisorAt n ∧ (ofRate n).places = placesAt n ∧
      ∀ unit, (ofRate n).scale.unitName unit = unitAt n unit := by
  rw [ofRate_natCast]
  split_ifs <;> refine ⟨?_, ?_, ?_⟩ <;> try rintro (_ | _)
  all_goals simp (disch := omega) only [divisorAt, placesAt, unitAt, if_pos, if_neg] <;> rfl

/-- A tier has fewer places than its divisor has zeros, and is trimmed if it has two. -/
theorem ofRate_places (n : Nat) :
    (ofRate n).places < (ofRate n).scale.power ∧ (ofRate n).scale.power ≤ 9 ∧
      (ofRate n).trimmed = decide ((ofRate n).places = 2) := by
  rw [ofRate_natCast]
  split_ifs <;> decide

end RateTier

namespace Label

/-- A label is written from the coefficient that rounding leaves, if the quotient by the divisor of
its unit is not beyond the largest exponent and the precision suffices for its places. -/
theorem ofRate_eq_ite {rate : Int} {unit : RateUnit} {shown : Nat} {t : RateTier}
    (hs : displayRate rate unit = shown) (ht : RateTier.ofRate shown = t) :
    ofRate rate unit =
      if 10 ^ (1000000 + t.scale.power) ≤ precise shown then .error .decimalOverflow
      else if dropUp (precise shown) (t.scale.power - t.places) < 10 ^ precision then
        .ok ⟨String.ofList
          (written (dropUp (precise shown) (t.scale.power - t.places)) t.places t.trimmed),
          t.scale.unitName unit⟩
      else .error .decimalOutOfRange := by
  subst hs ht
  obtain ⟨hp, -⟩ := RateTier.ofRate_places (displayRate rate unit)
  have hdiv := divPowerOfTen_eq (displayRate rate unit)
    (RateTier.ofRate (displayRate rate unit)).scale.power
  unfold ofRate
  extract_lets s t
  by_cases hbig : 10 ^ (1000000 + t.scale.power) ≤ precise s
  · rw [if_pos hbig] at hdiv ⊢
    rw [hdiv]
  · rw [if_neg hbig] at hdiv ⊢
    rw [hdiv]
    dsimp only
    rw [fixed?_divPowerOfTen t.trimmed hp hdiv]
    split_ifs <;> rfl

/-- Below `10 ^ 28` a label is written from the coefficient that rounding leaves. -/
theorem ofRate_eq {rate : Int} {unit : RateUnit} {shown : Nat} {t : RateTier}
    (hs : displayRate rate unit = shown) (h : shown < 10 ^ precision)
    (ht : RateTier.ofRate shown = t) :
    ofRate rate unit =
      .ok ⟨String.ofList (written (dropUp shown (t.scale.power - t.places)) t.places t.trimmed),
        t.scale.unitName unit⟩ := by
  obtain ⟨hp, -⟩ := RateTier.ofRate_places shown
  rw [ht] at hp
  have hc := (dropUp_le shown _ (Nat.sub_pos_of_lt hp)).trans_lt h
  have hsmall : shown < 10 ^ (1000000 + t.scale.power) :=
    h.trans_le (Nat.pow_le_pow_right (by decide) (by rw [precision]; omega))
  rw [ofRate_eq_ite hs ht, precise_of_lt h, if_neg (Nat.not_le.mpr hsmall), if_pos hc]

/-- Every integer rate whose display rate is below `10 ^ 28` has a label that shows it. -/
theorem shows_of_lt (rate : Int) (unit : RateUnit) (h : displayRate rate unit < 10 ^ 28) :
    ∃ l, ofRate rate unit = .ok l ∧ l.Shows (displayRate rate unit) unit := by
  generalize hs : displayRate rate unit = shown at h
  obtain ⟨hdiv, hplaces, hunit⟩ := RateTier.ofRate_ranges shown
  obtain ⟨hp, hk, htrim⟩ := RateTier.ofRate_places shown
  refine ⟨_, ofRate_eq hs h rfl, hunit unit, ?_⟩
  have hc := (dropUp_le shown _ (Nat.sub_pos_of_lt hp)).trans_lt h
  rw [← hdiv, ← hplaces, ← htrim, String.toList_ofList, Nat.cast_pow, Nat.cast_ofNat,
    roundedHalfUp_div hp]
  exact writes_written _ hc ((hp.le.trans hk).trans (by decide))

theorem shows_gigabytes :
    displayRate 12345678901 .bytes < 10 ^ 28 ∧
      ∃ l, ofRate 12345678901 .bytes = .ok l ∧ l.Shows (displayRate 12345678901 .bytes) .bytes :=
  ⟨by decide, shows_of_lt 12345678901 .bytes (by decide)⟩

end Label

end TrafficIndicator
