import Mathlib.Data.List.Basic
import TrafficIndicator.Rate.Label

/-!
Trimming takes zeros and a bare point from behind the point and nothing from before it, so a
label always shows a numeral.
-/
namespace TrafficIndicator

namespace Decimal

theorem drop_trailing_append_cons {c d : Char} (h : d ≠ c) (as bs : List Char) :
    dropTrailing c (as ++ d :: bs) = as ++ d :: dropTrailing c bs := by
  simp only [dropTrailing, List.reverse_append, List.reverse_cons, List.append_assoc,
    List.singleton_append, List.dropWhile_append]
  split
  · rename_i he
    rw [List.isEmpty_iff.mp he, List.dropWhile_cons_of_neg (by simpa using h)]
    simp
  · simp

theorem trim_fraction_of_no_point {cs : List Char} (h : '.' ∉ cs) : trimFraction cs = cs := by
  rw [trimFraction, if_neg (by simpa using h)]

/-- With a point, what stands before it is kept, and the point only if digits stay behind it. -/
theorem trim_fraction_point (as bs : List Char) :
    trimFraction (as ++ '.' :: bs) =
      if dropTrailing '0' bs = [] then as
      else if (dropTrailing '0' bs).getLast? = some '.' then
        as ++ '.' :: (dropTrailing '0' bs).dropLast
      else as ++ '.' :: dropTrailing '0' bs := by
  have hc : (as ++ '.' :: bs).contains '.' = true := by simp
  rw [trimFraction, if_pos hc]
  dsimp only
  rw [drop_trailing_append_cons (by decide)]
  generalize dropTrailing '0' bs = ds
  cases ds with
  | nil => simp
  | cons d ds =>
    rw [List.getLast?_append_cons, if_neg (List.cons_ne_nil _ _)]
    simp

def Begun (cs : List Char) : Prop := ∃ c bs, c ≠ '.' ∧ cs = c :: bs

theorem trim_fraction_ne_nil {cs : List Char} (h : Begun cs) : trimFraction cs ≠ [] := by
  obtain ⟨c, bs, hc, rfl⟩ := h
  by_cases hp : '.' ∈ bs
  · obtain ⟨as, ds, rfl⟩ := List.append_of_mem hp
    rw [← List.cons_append, trim_fraction_point]
    split
    · simp
    · split <;> simp
  · rw [trim_fraction_of_no_point (by simpa [hc.symm] using hp)]
    simp

theorem point_not_mem_digits (n : Nat) : '.' ∉ digitsOf n := by
  intro h
  have hd : '.'.isDigit = true := Nat.isDigit_of_mem_toDigits (by decide) (by decide) h
  exact absurd hd (by decide)

theorem begun_digits (n : Nat) : Begun (digitsOf n) := by
  obtain ⟨c, bs, h⟩ := List.exists_cons_of_ne_nil (Nat.toDigits_ne_nil (b := 10) (n := n))
  refine ⟨c, bs, ?_, h⟩
  rintro rfl
  exact point_not_mem_digits n (by rw [digitsOf, h]; exact List.mem_cons_self)

theorem begun_withPoint {ds : List Char} (h : Begun ds) (places : Nat) :
    Begun (withPoint ds places) := by
  have hb : Begun (List.replicate (places + 1 - ds.length) '0' ++ ds) := by
    cases hn : places + 1 - ds.length with
    | zero => simpa using h
    | succ n => exact ⟨'0', _, by decide, rfl⟩
  have hl : places < (List.replicate (places + 1 - ds.length) '0' ++ ds).length := by
    rw [List.length_append, List.length_replicate]
    omega
  rw [withPoint]
  generalize List.replicate (places + 1 - ds.length) '0' ++ ds = es at hb hl
  obtain ⟨c, bs, hc, rfl⟩ := hb
  obtain ⟨k, hk⟩ : ∃ k, (c :: bs).length - places = k + 1 := ⟨_, (Nat.succ_pred (by omega)).symm⟩
  rw [hk]
  exact ⟨c, _, hc, rfl⟩

theorem begun_plain (d : Decimal) : Begun d.plain := by
  have hd := begun_digits d.coefficient
  rw [plain]
  split
  · exact ⟨'-', _, by decide, rfl⟩
  · split
    · exact begun_withPoint hd _
    · split
      · exact hd
      · obtain ⟨c, bs, hc, h⟩ := hd
        exact ⟨c, bs ++ _, hc, by rw [h]; rfl⟩

theorem fixed_ne_nil {d : Decimal} {places : Int} {trimmed : Bool} {cs : List Char}
    (h : d.fixed? places trimmed = some cs) : cs ≠ [] := by
  obtain ⟨r, -, rfl⟩ := Option.map_eq_some_iff.mp h
  split
  · exact trim_fraction_ne_nil (begun_plain r)
  · obtain ⟨c, bs, -, hp⟩ := begun_plain r
    simp [hp]

end Decimal

/-- A label is a numeral that was written at some places, and the name of a unit. -/
theorem Label.ofRate_ok {rate : Int} {unit : RateUnit} {l : Label}
    (h : Label.ofRate rate unit = .ok l) :
    ∃ (quotient : Decimal) (places : Nat) (trimmed : Bool) (numeral : List Char)
      (scale : RateScale),
      quotient.fixed? places trimmed = some numeral ∧
        l = ⟨String.ofList numeral, scale.unitName unit⟩ := by
  unfold Label.ofRate at h
  extract_lets shown tier at h
  cases hq : (Decimal.ofNat shown).divPowerOfTen tier.scale.power with
  | error f =>
    rw [hq] at h
    cases h
  | ok quotient =>
    rw [hq] at h
    dsimp only at h
    cases hf : quotient.fixed? tier.places tier.trimmed with
    | none =>
      rw [hf] at h
      cases h
    | some numeral =>
      rw [hf] at h
      exact ⟨quotient, _, _, numeral, tier.scale, hf, (Except.ok.inj h).symm⟩

theorem Label.value_ne_empty {rate : Int} {unit : RateUnit} {l : Label}
    (h : Label.ofRate rate unit = .ok l) : l.value ≠ "" := by
  obtain ⟨quotient, places, trimmed, numeral, scale, hf, rfl⟩ := ofRate_ok h
  exact fun he => Decimal.fixed_ne_nil hf (String.ofList_eq_empty_iff.mp he)

end TrafficIndicator
