import TrafficIndicator.Proofs.LabelWidth

/-!
A label displays the number that its numeral reads back as, times the divisor of its unit. That is
a multiple of the last place of the tier, nearest to what the working precision keeps of the
display rate. The ends of the tiers are such multiples on either side, so a greater rate is never
displayed as less. From `10 ^ 35 - 5 * 10 ^ 6` on, the precision does not suffice for a numeral
and there is no label; from `10 ^ 1000009 - 5 * 10 ^ 999980` on, there is not even a quotient.
-/
namespace TrafficIndicator

open Decimal

def RateScale.ofUnitName? (name : String) : Option RateScale :=
  [kilo, mega, giga].find? fun s => name = s.unitName .bytes ∨ name = s.unitName .bits

theorem RateScale.ofUnitName?_unitName (s : RateScale) (unit : RateUnit) :
    ofUnitName? (s.unitName unit) = some s := by
  cases s <;> cases unit <;> decide

namespace RateTier

def dropped (t : RateTier) : Nat := t.scale.power - t.places

theorem dropped_pos (n : Nat) : 0 < (ofRate n).dropped :=
  Nat.sub_pos_of_lt (ofRate_places n).1

theorem find_lower_le (b : Nat) (ts : List RateTier) :
    ((ts.find? fun t => (t.lower : Int) ≤ (b : Int)).getD least).lower ≤ b := by
  induction ts with
  | nil => exact Nat.zero_le b
  | cons t ts ih =>
    rw [find_cons]
    split
    · assumption
    · exact ih

theorem ofRate_lower_le (n : Nat) : (ofRate n).lower ≤ n := find_lower_le n all

theorem find_of_lower_le {a b : Nat} (hab : a ≤ b) {ts : List RateTier}
    (h : ((ts.find? fun t => (t.lower : Int) ≤ (b : Int)).getD least).lower ≤ a) :
    (ts.find? fun t => (t.lower : Int) ≤ (a : Int)).getD least =
      (ts.find? fun t => (t.lower : Int) ≤ (b : Int)).getD least := by
  induction ts with
  | nil => rfl
  | cons t ts ih =>
    rw [find_cons] at h
    rw [find_cons, find_cons]
    by_cases hb : t.lower ≤ b
    · rw [if_pos hb] at h
      rw [if_pos hb, if_pos h]
    · rw [if_neg hb] at h
      rw [if_neg hb, if_neg fun ha => hb (ha.trans hab)]
      exact ih h

theorem lt_lower_of_ne {a b : Nat} (hab : a ≤ b) (h : ofRate a ≠ ofRate b) :
    a < (ofRate b).lower :=
  Nat.not_le.mp fun hl => h (find_of_lower_le hab hl)

/-- The lower bound of a tier is a multiple of the last place of every tier up to it. -/
theorem pow_dropped_dvd_lower : ∀ s ∈ least :: all, ∀ t ∈ least :: all, s.lower ≤ t.lower →
    10 ^ s.dropped ∣ t.lower := by
  decide

theorem ofRate_mem (n : Nat) : ofRate n ∈ least :: all := find_mem n all

end RateTier

namespace Label

/-- The number that the numeral reads back as, times the divisor of the unit. -/
def quantity? (l : Label) : Option ℚ :=
  match Datum.read? l.value.toList, RateScale.ofUnitName? l.unit with
  | some (.number d), some s => some (d.value * s.divisor)
  | _, _ => none

def nearest (j n : Nat) : Nat := dropUp n j * 10 ^ j

theorem nearest_of_dvd {j m : Nat} (hj : 0 < j) (h : 10 ^ j ∣ m) : nearest j m = m := by
  obtain ⟨c, rfl⟩ := h
  rw [nearest, Nat.mul_comm (10 ^ j), dropUp_mul_pow_of_le c hj le_rfl, Nat.sub_self, pow_zero,
    Nat.mul_one]

theorem nearest_mono {a b : Nat} (j : Nat) (h : a ≤ b) : nearest j a ≤ nearest j b :=
  Nat.mul_le_mul_right _ (dropUp_mono j h)

def displayed (n : Nat) : Nat := nearest (RateTier.ofRate n).dropped n

/-- Numbers of two tiers stay on their sides of the lower bound between them. -/
theorem displayed_mono {a b : Nat} (h : a ≤ b) : displayed a ≤ displayed b := by
  by_cases ht : RateTier.ofRate a = RateTier.ofRate b
  · rw [displayed, displayed, ht]
    exact nearest_mono _ h
  · have hlt := RateTier.lt_lower_of_ne h ht
    have hle := RateTier.ofRate_lower_le b
    have hlower := (RateTier.ofRate_lower_le a).trans hlt.le
    have hbelow := RateTier.pow_dropped_dvd_lower _ (RateTier.ofRate_mem a) _
      (RateTier.ofRate_mem b) hlower
    have habove := RateTier.pow_dropped_dvd_lower _ (RateTier.ofRate_mem b) _
      (RateTier.ofRate_mem b) le_rfl
    calc displayed a ≤ nearest (RateTier.ofRate a).dropped (RateTier.ofRate b).lower :=
          nearest_mono _ hlt.le
      _ = (RateTier.ofRate b).lower := nearest_of_dvd (RateTier.dropped_pos a) hbelow
      _ = nearest (RateTier.ofRate b).dropped (RateTier.ofRate b).lower :=
          (nearest_of_dvd (RateTier.dropped_pos b) habove).symm
      _ ≤ displayed b := nearest_mono _ hle

/-- What the working precision keeps of a number is in the tier of the number. -/
theorem ofRate_precise (n : Nat) : RateTier.ofRate (precise n) = RateTier.ofRate n := by
  by_cases h : n < 10 ^ precision
  · rw [precise_of_lt h]
  · have hn : 10 ^ 9 ≤ n := (by decide : 10 ^ 9 ≤ 10 ^ precision).trans (Nat.not_lt.mp h)
    have hp : precise (10 ^ 9) ≤ precise n := precise_mono hn
    rw [precise_of_lt (by decide)] at hp
    rw [RateTier.ofRate_natCast, RateTier.ofRate_natCast, if_pos hn, if_pos hp]

/-- A label displays what the working precision keeps of the display rate, rounded at the last
place of the tier. -/
theorem quantity?_ofRate {rate : Int} {unit : RateUnit} {l : Label}
    (h : ofRate rate unit = .ok l) :
    l.quantity? = some (displayed (precise (displayRate rate unit)) : ℚ) := by
  generalize hs : displayRate rate unit = shown
  obtain ⟨hp, hk, -⟩ := RateTier.ofRate_places shown
  rw [ofRate_eq_ite hs rfl, ← RateTier.dropped] at h
  rw [displayed, ofRate_precise, nearest]
  generalize dropUp (precise shown) (RateTier.ofRate shown).dropped = c at h ⊢
  split_ifs at h with hbig hc
  cases h
  obtain ⟨⟨d, hd, hv⟩, -⟩ := writes_written (RateTier.ofRate shown).trimmed hc
    ((hp.le.trans hk).trans (by decide : 9 ≤ precision))
  rw [quantity?, String.toList_ofList, hd, RateScale.ofUnitName?_unitName]
  have hpow : (10 : ℚ) ^ (RateTier.ofRate shown).scale.power =
      10 ^ (RateTier.ofRate shown).dropped * 10 ^ (RateTier.ofRate shown).places := by
    rw [← pow_add, RateTier.dropped, Nat.sub_add_cancel hp.le]
  dsimp only
  rw [hv, RateScale.divisor, Nat.pow_eq]
  push_cast
  rw [hpow]
  field_simp

theorem displayRate_mono {r₁ r₂ : Int} (unit : RateUnit) (h : r₁ ≤ r₂) :
    displayRate r₁ unit ≤ displayRate r₂ unit := by
  cases unit <;> simp only [displayRate] <;> omega

/-- Of two rates that have labels in one unit mode, the greater is not displayed as less. -/
theorem quantity_mono {r₁ r₂ : Int} {unit : RateUnit} {l₁ l₂ : Label} (h : r₁ ≤ r₂)
    (h₁ : ofRate r₁ unit = .ok l₁) (h₂ : ofRate r₂ unit = .ok l₂) :
    ∃ q₁ q₂, l₁.quantity? = some q₁ ∧ l₂.quantity? = some q₂ ∧ q₁ ≤ q₂ := by
  refine ⟨_, _, quantity?_ofRate h₁, quantity?_ofRate h₂, ?_⟩
  exact_mod_cast displayed_mono (precise_mono (displayRate_mono unit h))

/-- One rate is rounded up to the end of its tier, the other beyond the working precision. -/
theorem quantity_mono_carried :
    (999999 : Int) ≤ 10 ^ 34 - 1 ∧
      ofRate 999999 .bytes = .ok ⟨"1000", "KB/s"⟩ ∧
      ofRate (10 ^ 34 - 1) .bytes = .ok ⟨"10000000000000000000000000", "GB/s"⟩ ∧
      ∃ q₁ q₂, quantity? ⟨"1000", "KB/s"⟩ = some q₁ ∧
        quantity? ⟨"10000000000000000000000000", "GB/s"⟩ = some q₂ ∧ q₁ ≤ q₂ := by
  have h₁ : ofRate 999999 .bytes = .ok ⟨"1000", "KB/s"⟩ := by decide +kernel
  have h₂ : ofRate (10 ^ 34 - 1) .bytes = .ok ⟨"10000000000000000000000000", "GB/s"⟩ := by
    decide +kernel
  exact ⟨by decide, h₁, h₂, quantity_mono (by decide) h₁ h₂⟩

def limit : Nat := 10 ^ 35 - 5 * 10 ^ 6

/-- The limit is halfway between two numbers that the working precision can hold, and the greater
one is even. -/
theorem precise_lt_limit (n : Nat) : precise n < limit ↔ n < limit := by
  constructor
  · intro h
    by_contra hn
    have hle : precise limit ≤ precise n := precise_mono (Nat.not_lt.mp hn)
    have hlimit : limit ≤ precise limit := by decide +kernel
    exact absurd h (Nat.not_lt.mpr (hlimit.trans hle))
  · intro h
    have hle : precise n ≤ precise (limit - 1) := precise_mono (Nat.le_pred_of_lt h)
    exact hle.trans_lt (by decide +kernel)

/-- The last tier keeps two of nine places, so its numerals are the first to grow too long. -/
theorem dropUp_lt_iff (n : Nat) :
    dropUp n (RateTier.ofRate n).dropped < 10 ^ precision ↔ n < limit := by
  by_cases h : 10 ^ 9 ≤ n
  · have ht : (RateTier.ofRate n).dropped = 7 := by
      rw [RateTier.ofRate_natCast, if_pos h]
      rfl
    rw [ht, dropUp, Nat.div_lt_iff_lt_mul (by decide), limit, precision]
    simp only [Nat.pow_eq]
    omega
  · have hle := dropUp_le n _ (RateTier.dropped_pos n)
    have hp : 10 ^ 9 ≤ 10 ^ precision := by decide
    have hl : 10 ^ 9 ≤ limit := by decide
    omega

def excess : Nat := 10 ^ 1000009 - 5 * 10 ^ 999980

theorem excess_eq : excess = 10 ^ (999980 + 29) - 5 * 10 ^ 999980 := by
  have hexp : 1000009 = 999980 + 29 := by decide
  rw [excess, hexp]

theorem limit_le_of_pow {m : Nat} (h : 35 ≤ m) : limit ≤ 10 ^ (m + 29) - 5 * 10 ^ m := by
  have hlow : 10 ^ 35 ≤ 10 ^ m := Nat.pow_le_pow_right (by decide) h
  rw [limit, pow_add]
  omega

theorem limit_le_excess : limit ≤ excess := by
  rw [excess_eq]
  exact limit_le_of_pow (by decide)

theorem overflow_iff (n : Nat) :
    10 ^ (1000000 + (RateTier.ofRate n).scale.power) ≤ precise n ↔ excess ≤ n := by
  by_cases h : 10 ^ 9 ≤ n
  · have ht : (RateTier.ofRate n).scale.power = 9 := by
      rw [RateTier.ofRate_natCast, if_pos h]
      rfl
    have hexp : 1000000 + 9 = 999980 + 29 := by decide
    rw [ht, hexp, pow_le_precise_iff, excess_eq]
  · have hn : n < 10 ^ 9 := Nat.not_le.mp h
    have hpow : 10 ^ 9 ≤ 10 ^ (1000000 + (RateTier.ofRate n).scale.power) :=
      Nat.pow_le_pow_right (by decide) (by omega)
    have hlimit : 10 ^ 9 ≤ limit := by decide
    have hexcess := limit_le_excess
    rw [precise_of_lt (hn.trans (by decide))]
    omega

theorem ofRate_eq_of_shown {rate : Int} {unit : RateUnit} {shown : Nat}
    (hs : displayRate rate unit = shown) :
    (shown < limit → ∃ l, ofRate rate unit = .ok l) ∧
      (limit ≤ shown → shown < excess → ofRate rate unit = .error .decimalOutOfRange) ∧
      (excess ≤ shown → ofRate rate unit = .error .decimalOverflow) := by
  have hle := limit_le_excess
  rw [ofRate_eq_ite hs rfl, ← RateTier.dropped]
  simp only [overflow_iff]
  rw [← ofRate_precise]
  simp only [dropUp_lt_iff, precise_lt_limit]
  refine ⟨fun h => ?_, fun hl he => ?_, fun he => if_pos he⟩
  · rw [if_neg (by omega), if_pos h]
    exact ⟨_, rfl⟩
  · rw [if_neg (by omega), if_neg (by omega)]

/-- A display rate has a label exactly below `10 ^ 35 - 5 * 10 ^ 6`. From there on it is refused
for want of precision, as long as its quotient is not beyond the largest exponent; from
`10 ^ 1000009 - 5 * 10 ^ 999980` on, it is. -/
theorem ofRate_domain (rate : Int) (unit : RateUnit) :
    ((∃ l, ofRate rate unit = .ok l) ↔ displayRate rate unit < 10 ^ 35 - 5 * 10 ^ 6) ∧
      (ofRate rate unit = .error .decimalOutOfRange ↔
        10 ^ 35 - 5 * 10 ^ 6 ≤ displayRate rate unit ∧
          displayRate rate unit < 10 ^ 1000009 - 5 * 10 ^ 999980) ∧
      (ofRate rate unit = .error .decimalOverflow ↔
        10 ^ 1000009 - 5 * 10 ^ 999980 ≤ displayRate rate unit) := by
  obtain ⟨hlabel, hrange, hoverflow⟩ := @ofRate_eq_of_shown rate unit _ rfl
  have hle := limit_le_excess
  rw [← limit, ← excess]
  rcases Nat.lt_or_ge (displayRate rate unit) limit with h | h
  · obtain ⟨l, hl⟩ := hlabel h
    rw [hl]
    exact ⟨⟨fun _ => h, fun _ => ⟨l, rfl⟩⟩, ⟨nofun, fun hr => by omega⟩,
      ⟨nofun, fun hr => by omega⟩⟩
  · rcases Nat.lt_or_ge (displayRate rate unit) excess with he | he
    · rw [hrange h he]
      exact ⟨⟨nofun, fun hr => by omega⟩, ⟨fun _ => ⟨h, he⟩, fun _ => rfl⟩,
        ⟨nofun, fun hr => by omega⟩⟩
    · rw [hoverflow he]
      exact ⟨⟨nofun, fun hr => by omega⟩, ⟨nofun, fun hr => by omega⟩, ⟨fun _ => he, fun _ => rfl⟩⟩

/-- A rate with a million digits is refused in another way. -/
theorem ofRate_refused_by_exponent :
    ¬∀ (rate : Int) (unit : RateUnit), 0 ≤ rate →
      10 ^ 35 - 5 * 10 ^ 6 ≤ displayRate rate unit →
        ofRate rate unit = .error .decimalOutOfRange := by
  intro h
  have hshown : displayRate ((10 ^ 1000009 : Nat) : Int) .bytes = 10 ^ 1000009 :=
    Int.toNat_natCast _
  have hexcess : excess ≤ 10 ^ 1000009 := Nat.sub_le _ _
  obtain ⟨-, -, hoverflow⟩ := ofRate_eq_of_shown hshown
  have hall := h ((10 ^ 1000009 : Nat) : Int) .bytes (Int.natCast_nonneg _)
    (hshown ▸ limit_le_excess.trans hexcess)
  rw [hoverflow hexcess] at hall
  cases hall

/-- The last display rate with a label is rounded down, not to a tie. -/
example : ofRate (10 ^ 35 - 5 * 10 ^ 6 - 1) .bytes =
    .ok ⟨"99999999999999999999999999.99", "GB/s"⟩ := by
  decide +kernel

end Label

end TrafficIndicator
