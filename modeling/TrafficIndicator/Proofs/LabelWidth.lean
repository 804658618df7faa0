import TrafficIndicator.Proofs.LabelRounding

/-!
The range of a display rate is looked up before rounding. Where rounding carries over the end of
a range with a fixed number of places, the label has a fourth digit. Between two display rates of
one tier that are rounded to one coefficient the label is one.
-/
namespace TrafficIndicator

open Decimal

namespace RateTier

theorem find_mem (n : Nat) (ts : List RateTier) :
    (ts.find? fun t => (t.lower : Int) ≤ (n : Int)).getD least ∈ least :: ts := by
  cases h : ts.find? fun t => (t.lower : Int) ≤ (n : Int) with
  | none => exact List.mem_cons_self
  | some t => exact List.mem_cons_of_mem _ (List.mem_of_find?_eq_some h)

theorem find_between {a n b : Nat} (ha : a ≤ n) (hb : n ≤ b) {ts : List RateTier}
    (hd : (least :: ts).Nodup)
    (h : (ts.find? fun t => (t.lower : Int) ≤ (a : Int)).getD least =
      (ts.find? fun t => (t.lower : Int) ≤ (b : Int)).getD least) :
    (ts.find? fun t => (t.lower : Int) ≤ (n : Int)).getD least =
      (ts.find? fun t => (t.lower : Int) ≤ (a : Int)).getD least := by
  induction ts with
  | nil => rfl
  | cons t ts ih =>
    simp only [find_cons] at h ⊢
    have hrest : (least :: ts).Nodup := hd.sublist ((List.sublist_cons_self t ts).cons_cons least)
    by_cases hta : t.lower ≤ a
    · rw [if_pos hta, if_pos (hta.trans ha)]
    · rw [if_neg hta] at h ⊢
      by_cases htb : t.lower ≤ b
      · -- then the tier of the lesser rate would stand twice in the list
        rw [if_pos htb] at h
        have hm := h ▸ find_mem a ts
        obtain ⟨hl, ht⟩ := List.nodup_cons.mp hd
        rcases List.mem_cons.mp hm with rfl | hm
        · exact absurd List.mem_cons_self hl
        · exact absurd hm (List.nodup_cons.mp ht).1
      · rw [if_neg htb] at h
        rw [if_neg fun htn => htb (htn.trans hb)]
        exact ih hrest h

theorem ofRate_between {a n b : Nat} (ha : a ≤ n) (hb : n ≤ b) (h : ofRate a = ofRate b) :
    ofRate n = ofRate a :=
  find_between ha hb (by decide) h

end RateTier

namespace Label

/-- The coefficient to which a display rate is rounded in its tier. -/
def coefficient (shown : Nat) : Nat :=
  dropUp shown ((RateTier.ofRate shown).scale.power - (RateTier.ofRate shown).places)

/-- Between two display rates of one tier with one coefficient all labels have one text. -/
theorem ofRate_between {rate : Int} {unit : RateUnit} {a b : Nat} (ha : a ≤ displayRate rate unit)
    (hb : displayRate rate unit ≤ b) (h : b < 10 ^ precision)
    (ht : RateTier.ofRate a = RateTier.ofRate b) (hc : coefficient a = coefficient b) :
    ofRate rate unit = .ok ⟨String.ofList (written (coefficient a) (RateTier.ofRate a).places
      (RateTier.ofRate a).trimmed), (RateTier.ofRate a).scale.unitName unit⟩ := by
  have htier := RateTier.ofRate_between ha hb ht
  have hdrop : dropUp (displayRate rate unit)
      ((RateTier.ofRate a).scale.power - (RateTier.ofRate a).places) = coefficient a := by
    rw [coefficient, coefficient, ← ht] at hc
    exact Nat.le_antisymm ((dropUp_mono _ hb).trans_eq hc.symm) (dropUp_mono _ ha)
  rw [ofRate_eq rfl (hb.trans_lt h) htier, hdrop]

structure Step where
  lower : Nat
  upper : Nat
  value : String
  scale : RateScale

def ladder : List Step :=
  [⟨9985, 9995, "9.99", .kilo⟩, ⟨9995, 10000, "10", .kilo⟩, ⟨10000, 10050, "10.0", .kilo⟩,
   ⟨99850, 99950, "99.9", .kilo⟩, ⟨99950, 100000, "100.0", .kilo⟩,
   ⟨100000, 100500, "100", .kilo⟩, ⟨998500, 999500, "999", .kilo⟩,
   ⟨999500, 1000000, "1000", .kilo⟩, ⟨1000000, 1005000, "1", .mega⟩,
   ⟨9985000, 9995000, "9.99", .mega⟩, ⟨9995000, 10000000, "10", .mega⟩,
   ⟨10000000, 10050000, "10.0", .mega⟩, ⟨99850000, 99950000, "99.9", .mega⟩,
   ⟨99950000, 100000000, "100.0", .mega⟩, ⟨100000000, 100500000, "100", .mega⟩,
   ⟨998500000, 999500000, "999", .mega⟩, ⟨999500000, 1000000000, "1000", .mega⟩,
   ⟨1000000000, 1005000000, "1", .giga⟩]

/-- The two ends of a step have one tier, one coefficient and the label of the step. -/
theorem ladder_ends : ∀ s ∈ ladder,
    s.upper - 1 < 10 ^ precision ∧ RateTier.ofRate s.lower = RateTier.ofRate (s.upper - 1 : Nat) ∧
      coefficient s.lower = coefficient (s.upper - 1) ∧
      String.ofList (written (coefficient s.lower) (RateTier.ofRate s.lower).places
        (RateTier.ofRate s.lower).trimmed) = s.value ∧
      (RateTier.ofRate s.lower).scale = s.scale := by
  decide +kernel

theorem ofRate_ladder {rate : Int} {unit : RateUnit} {s : Step} (hm : s ∈ ladder)
    (hl : s.lower ≤ displayRate rate unit) (hu : displayRate rate unit < s.upper) :
    ofRate rate unit = .ok ⟨s.value, s.scale.unitName unit⟩ := by
  obtain ⟨hlt, ht, hc, hv, hs⟩ := ladder_ends s hm
  rw [ofRate_between hl (by omega) hlt ht hc, hv, hs]

/-- The display rates that are rounded up to the end of a range with a fixed number of places. -/
def Carries (shown : Nat) : Prop :=
  99950 ≤ shown ∧ shown < 10 ^ 5 ∨ 999500 ≤ shown ∧ shown < 10 ^ 6 ∨
    99950000 ≤ shown ∧ shown < 10 ^ 8 ∨ 999500000 ≤ shown ∧ shown < 10 ^ 9

/-- Below `10 ^ 9` a coefficient is at most 1000, and with fixed places it is less but where
rounding carries. -/
theorem coefficient_le {shown : Nat} (h : shown < 10 ^ 9) :
    coefficient shown ≤ 1000 ∧ ((RateTier.ofRate shown).trimmed = false →
      (coefficient shown < 1000 ↔ ¬ Carries shown)) ∧
      (Carries shown → (RateTier.ofRate shown).trimmed = false) := by
  rw [coefficient, RateTier.ofRate_natCast, Carries]
  split_ifs <;> simp [dropUp, RateScale.power, RateTier.least] <;> omega

theorem value_places_le (n places : Nat) : Decimal.value ⟨false, n, -(places : Int)⟩ ≤ n := by
  rw [value_places]
  exact div_le_self (by positivity) (one_le_pow₀ (by norm_num))

theorem value_places_lt {n places : Nat} (h : n < 1000) :
    Decimal.value ⟨false, n, -(places : Int)⟩ < 1000 :=
  (value_places_le n places).trans_lt (by exact_mod_cast h)

/-- Of a coefficient up to 1000 three digits are significant after trimming. -/
theorem read?_trimmed_le {c : Nat} (h : c ≤ 1000) :
    ∃ d, Datum.read? (written c 2 true) = some (.number d) ∧ d.value < 1000 ∧
      size d.coefficient ≤ 3 := by
  rcases h.eq_or_lt with rfl | hlt
  · exact ⟨⟨false, 10, 0⟩, by decide +kernel, by norm_num [Decimal.value], by decide⟩
  · have hc : c < 10 ^ precision := hlt.trans (by decide)
    have hp : 2 ≤ precision := by decide
    obtain ⟨n, kept, k, -, hn, -, hr⟩ := read?_written_trimmed hc hp
    have hle : n ≤ c := (Nat.le_mul_of_pos_right _ (Nat.pow_pos (by decide))).trans_eq hn
    have hn_lt : n < 1000 := hle.trans_lt hlt
    exact ⟨_, hr, value_places_lt hn_lt, (size_le_iff (by decide)).mpr hn_lt⟩

theorem tier_places {n : Nat} (h : (RateTier.ofRate n).trimmed = true) :
    (RateTier.ofRate n).places = 2 := by
  obtain ⟨-, -, ht⟩ := RateTier.ofRate_places n
  rw [ht] at h
  exact of_decide_eq_true h

/-- A display rate below `10 ^ 9` has a label below 1000 with at most three significant digits,
but where rounding carries over the end of a range with fixed places: there the label is 100.0
or 1000 in the unit of the range. So the label steps from 9.99 over 10 to 10.0, from 99.9 over
100.0 to 100, and from 999 over 1000 to 1 of the next unit. -/
theorem width (rate : Int) (unit : RateUnit) :
    (displayRate rate unit < 10 ^ 9 →
      ∃ l d, ofRate rate unit = .ok l ∧ Datum.read? l.value.toList = some (.number d) ∧
        (¬ Carries (displayRate rate unit) → d.value < 1000 ∧ size d.coefficient ≤ 3) ∧
        (Carries (displayRate rate unit) →
          d.value ≤ 1000 ∧ size d.coefficient = 4 ∧ l.unit = unitAt (displayRate rate unit) unit)) ∧
      ∀ s ∈ ladder, s.lower ≤ displayRate rate unit → displayRate rate unit < s.upper →
        ofRate rate unit = .ok ⟨s.value, s.scale.unitName unit⟩ := by
  refine ⟨fun h => ?_, fun s hm hl hu => ofRate_ladder hm hl hu⟩
  generalize hs : displayRate rate unit = shown at h
  obtain ⟨hle, hfixed, hcarry⟩ := coefficient_le h
  obtain ⟨-, -, hunit⟩ := RateTier.ofRate_ranges shown
  obtain ⟨hp, hk, -⟩ := RateTier.ofRate_places shown
  have hl := ofRate_eq hs (h.trans (by decide)) rfl
  rw [← coefficient] at hl
  cases ht : (RateTier.ofRate shown).trimmed with
  | true =>
    have hn : ¬ Carries shown := fun hc => Bool.false_ne_true ((hcarry hc).symm.trans ht)
    obtain ⟨d, hd, hv, hz⟩ := read?_trimmed_le hle
    rw [ht, tier_places ht] at hl
    exact ⟨_, d, hl, by rwa [String.toList_ofList], fun _ => ⟨hv, hz⟩, fun hc => absurd hc hn⟩
  | false =>
    rw [ht] at hl
    have hd := read?_written_fixed (n := coefficient shown) (hle.trans_lt (by decide))
      ((hp.le.trans hk).trans (by decide : 9 ≤ precision))
    refine ⟨_, _, hl, by rwa [String.toList_ofList], fun hn => ?_, fun hc => ?_⟩
    · have hlt := (hfixed ht).mpr hn
      exact ⟨value_places_lt hlt, (size_le_iff (by decide)).mpr hlt⟩
    · have heq : coefficient shown = 1000 :=
        Nat.le_antisymm hle (Nat.not_lt.mp fun hlt => (hfixed ht).mp hlt hc)
      rw [heq]
      exact ⟨by exact_mod_cast value_places_le 1000 _, (by decide : size 1000 = 4), hunit unit⟩

theorem width_carried :
    displayRate 999999 .bytes < 10 ^ 9 ∧
      ∃ l d, ofRate 999999 .bytes = .ok l ∧ Datum.read? l.value.toList = some (.number d) ∧
        d.value ≤ 1000 ∧ size d.coefficient = 4 ∧ l.unit = unitAt 999999 .bytes := by
  obtain ⟨l, d, hl, hd, -, hc⟩ := (width 999999 .bytes).1 (by decide)
  exact ⟨by decide, l, d, hl, hd, hc (by unfold Carries displayRate; decide)⟩

/-- Not every label below `10 ^ 9` is below 1000: 999999 bytes a second are shown as 1000. -/
theorem width_exceeded :
    ¬ ∀ (rate : Int) (unit : RateUnit), 0 ≤ rate → displayRate rate unit < 10 ^ 9 →
      ∃ l d, ofRate rate unit = .ok l ∧ Datum.read? l.value.toList = some (.number d) ∧
        d.value < 1000 ∧ size d.coefficient ≤ 3 := by
  intro h
  obtain ⟨l, d, hl, hd, -, hs⟩ := h 999999 .bytes (by decide) (by decide)
  have hlabel : ofRate 999999 .bytes = .ok ⟨"1000", "KB/s"⟩ :=
    ofRate_ladder (s := ⟨999500, 1000000, "1000", .kilo⟩) (by simp [ladder]) (by decide) (by decide)
  have hread : Datum.read? "1000".toList = some (.number ⟨false, 1000, 0⟩) := by decide +kernel
  cases hlabel.symm.trans hl
  cases hread.symm.trans hd
  exact absurd hs (by decide)

end Label

end TrafficIndicator
