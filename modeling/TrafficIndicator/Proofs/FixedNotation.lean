import TrafficIndicator.Proofs.LabelRounding

/-!
A number of any sign and exponent is rounded once to its places, a half away from zero, and the
text that is written says the rounded number without loss. There is no text only where the rounded
number has more digits at these places than the working precision. A carry can be what makes them
too many.
-/
namespace TrafficIndicator.Decimal

theorem value_minus (c : Nat) (e : Int) : value ⟨true, c, e⟩ = -value ⟨false, c, e⟩ := by
  simp [value]

theorem value_nonneg (c : Nat) (e : Int) : 0 ≤ value ⟨false, c, e⟩ := by
  rw [value, if_neg Bool.false_ne_true, one_mul]
  exact mul_nonneg (Nat.cast_nonneg c) (zpow_nonneg (by norm_num) e)

theorem abs_value (d : Decimal) : |d.value| = value { d with negative := false } := by
  obtain ⟨negative, c, e⟩ := d
  cases negative with
  | false => exact abs_of_nonneg (value_nonneg c e)
  | true => rw [value_minus, abs_neg, abs_of_nonneg (value_nonneg c e)]

theorem value_withNegative {d d' : Decimal} (negative : Bool) (h : d.value = d'.value) :
    value { d with negative } = value { d' with negative } := by
  have habs : value { d with negative := false } = value { d' with negative := false } := by
    rw [← abs_value, ← abs_value, h]
  cases negative with
  | false => exact habs
  | true => rw [value_minus, value_minus, habs]

/-- A number at so many decimal places, a half away from zero. -/
def roundedAway (q : ℚ) (places : Nat) : ℚ :=
  if q < 0 then -roundedHalfUp (-q) places else roundedHalfUp q places

theorem roundedAway_of_nonneg {q : ℚ} (h : 0 ≤ q) (places : Nat) :
    roundedAway q places = roundedHalfUp q places :=
  if_neg (not_lt.mpr h)

theorem roundedAway_zero (places : Nat) : roundedAway 0 places = 0 := by
  norm_num [roundedAway_of_nonneg le_rfl, roundedHalfUp]

theorem roundedAway_neg (q : ℚ) (places : Nat) :
    roundedAway (-q) places = -roundedAway q places := by
  rcases lt_trichotomy q 0 with h | rfl | h
  · rw [roundedAway_of_nonneg (by linarith), roundedAway, if_pos h, neg_neg]
  · rw [neg_zero, roundedAway_zero, neg_zero]
  · rw [roundedAway, if_pos (by linarith), neg_neg, roundedAway_of_nonneg h.le]

theorem roundedAway_value (negative : Bool) (c e : Nat) {k places : Nat} (hp : places < k) :
    roundedAway (value ⟨negative, c, (e : Int) - k⟩) places =
      value ⟨negative, dropUp (c * 10 ^ e) (k - places), -(places : Int)⟩ := by
  have hquot : value ⟨false, c, (e : Int) - k⟩ = ((c * 10 ^ e : Nat) : ℚ) / 10 ^ k := by
    rw [value, zpow_sub₀ (by norm_num), zpow_natCast, zpow_natCast]
    push_cast
    ring
  have hplus : roundedAway (value ⟨false, c, (e : Int) - k⟩) places =
      value ⟨false, dropUp (c * 10 ^ e) (k - places), -(places : Int)⟩ := by
    rw [roundedAway_of_nonneg (value_nonneg c _), hquot, roundedHalfUp_div hp, value_places]
  cases negative with
  | false => exact hplus
  | true => rw [value_minus, value_minus, roundedAway_neg, hplus]

/-- Every number is rounded to a whole number of units of its last place, and brought to its
places by that, if the precision suffices. -/
theorem exists_units (d : Decimal) (places : Nat) :
    ∃ n : Nat, roundedAway d.value places = value ⟨d.negative, n, -(places : Int)⟩ ∧
      d.quantize? places =
        if n < 10 ^ precision then some ⟨d.negative, n, -(places : Int)⟩ else none := by
  obtain ⟨negative, c, x⟩ := d
  -- with more places in the divisor than are asked for, there is always something to round
  obtain ⟨e, k, hp, rfl⟩ : ∃ e k : Nat, places < k ∧ x = (e : Int) - k :=
    ⟨(x + (places + 1 + x.natAbs : Nat)).toNat, places + 1 + x.natAbs, by omega, by omega⟩
  exact ⟨_, roundedAway_value negative c e hp, quantize?_eq negative c e hp⟩

/-- The number of digits of a number at so many decimal places, without zeros in front; zero has
one. -/
def digitsAt (q : ℚ) (places : Nat) : Nat := size ⌊|q| * 10 ^ places⌋₊

theorem digitsAt_value (negative : Bool) (n places : Nat) :
    digitsAt (value ⟨negative, n, -(places : Int)⟩) places = size n := by
  rw [digitsAt, abs_value, value_places, div_mul_cancel₀ _ (by positivity), Nat.floor_natCast]

/-- A text writes a number with a sign: it reads back as the number, and behind its minus, if it has
one, it writes the magnitude. -/
def WritesSigned (text : List Char) (negative : Bool) (number : ℚ) (places : Nat)
    (trimmed : Bool) : Prop :=
  (∃ d, Datum.read? text = some (.number d) ∧ d.value = number) ∧
    ∃ body, text = withSign negative body ∧ Writes body |number| places trimmed

theorem writesSigned_written {n places : Nat} (negative trimmed : Bool) (hn : n < 10 ^ precision)
    (hp : places ≤ precision) :
    WritesSigned (withSign negative (written n places trimmed)) negative
      (value ⟨negative, n, -(places : Int)⟩) places trimmed := by
  have hw := writes_written trimmed hn hp
  rw [← value_places] at hw
  refine ⟨?_, _, rfl, by rwa [abs_value]⟩
  obtain ⟨⟨d, hd, hv⟩, fraction, hbody, hf, -⟩ := hw
  rw [hbody] at hd ⊢
  exact ⟨_, read?_withSign negative hf hd, value_withNegative negative hv⟩

theorem effectivePlaces_of_le {places : Nat} (h : (places : Int) ≤ -leastExponent) :
    effectivePlaces places = .ok places := by
  have hlimit : ¬ placesLimit < (places : Int).natAbs := by
    simp only [placesLimit, leastExponent] at h ⊢
    omega
  have hoverflow : ¬ maxExponent < -(places : Int) := by
    simp only [maxExponent]
    omega
  rw [effectivePlaces, if_neg hlimit, if_neg hoverflow, min_eq_left h]

/-- A number is written from the units that rounding leaves, if the precision suffices. -/
theorem exists_fixed_eq_ite (d : Decimal) {places : Nat} (h : (places : Int) ≤ -leastExponent)
    (trimmed : Bool) :
    ∃ n : Nat, roundedAway d.value places = value ⟨d.negative, n, -(places : Int)⟩ ∧
      Datum.fixed (.number d) places trimmed =
        if n < 10 ^ precision then .ok (withSign d.negative (written n places trimmed))
        else .error .decimalOutOfRange := by
  obtain ⟨n, hr, hq⟩ := exists_units d places
  refine ⟨n, hr, ?_⟩
  rw [Datum.fixed, effectivePlaces_of_le h]
  dsimp only
  rw [Datum.fixed?, fixed?_of_quantize? trimmed hq]
  split_ifs <;> rfl

/-- A number has no form at up to 27 places exactly where, rounded to them, it has more than 28
digits. Else its form is a numeral that reads back as the rounded number. -/
theorem fixed_writes_rounded (d : Decimal) {places : Nat} (hp : places ≤ 27) (trimmed : Bool) :
    (Datum.fixed (.number d) places trimmed = .error .decimalOutOfRange ↔
        28 < digitsAt (roundedAway d.value places) places) ∧
      (¬ 28 < digitsAt (roundedAway d.value places) places →
        ∃ text, Datum.fixed (.number d) places trimmed = .ok text ∧
          WritesSigned text d.negative (roundedAway d.value places) places trimmed) := by
  have hplaces : (places : Int) ≤ -leastExponent := by
    simp only [leastExponent]
    omega
  obtain ⟨n, hr, hf⟩ := exists_fixed_eq_ite d hplaces trimmed
  have hsize : 28 < size n ↔ ¬ n < 10 ^ precision :=
    Nat.not_le.symm.trans (not_congr (size_le_iff (by decide)))
  rw [hr, digitsAt_value, hf, hsize]
  by_cases hn : n < 10 ^ precision
  · rw [if_pos hn]
    exact ⟨⟨nofun, fun h => absurd hn h⟩,
      fun _ => ⟨_, rfl, writesSigned_written _ _ hn (hp.trans (by decide))⟩⟩
  · rw [if_neg hn]
    exact ⟨⟨fun _ => hn, fun _ => rfl⟩, fun h => absurd hn h⟩

/-- A carry through all digits is trimmed up to the point, and makes one digit too many where all
28 are nines. -/
theorem fixed_writes_rounded_carried :
    2 ≤ 27 ∧ ¬ 28 < digitsAt (roundedAway (value ⟨true, 999995, -3⟩) 2) 2 ∧
      (∃ text, Datum.fixed (.number ⟨true, 999995, -3⟩) (2 : Nat) true = .ok text ∧
        text = "-1000".toList ∧
        WritesSigned text true (roundedAway (value ⟨true, 999995, -3⟩) 2) 2 true) ∧
      28 < digitsAt (roundedAway (value ⟨true, 10 ^ 29 - 5, -3⟩) 2) 2 := by
  have hf : Datum.fixed (.number ⟨true, 999995, -3⟩) (2 : Nat) true = .ok "-1000".toList := by
    decide +kernel
  obtain ⟨hiff, hwrites⟩ := fixed_writes_rounded ⟨true, 999995, -3⟩ (by decide : 2 ≤ 27) true
  have hdigits : ¬ 28 < digitsAt (roundedAway (value ⟨true, 999995, -3⟩) 2) 2 := by
    rw [← hiff, hf]
    nofun
  obtain ⟨text, ht, hw⟩ := hwrites hdigits
  refine ⟨by decide, hdigits, ⟨text, ht, Except.ok.inj (ht.symm.trans hf), hw⟩, ?_⟩
  exact (fixed_writes_rounded ⟨true, 10 ^ 29 - 5, -3⟩ (by decide : 2 ≤ 27) true).1.mp
    (by decide +kernel)

end TrafficIndicator.Decimal
