import Mathlib.Tactic.Linarith
import TrafficIndicator.Rate.Decimal

/-!
A whole number with more digits than the precision is rounded when it is divided by a power of
ten, a tie to the even neighbour. What is left is rounded to its places, a half upwards. Neither
rounding turns the order of two numbers around. A quotient is refused where its first digit lies
beyond the largest exponent, and at its places where these need more digits than the precision has.
-/
namespace TrafficIndicator.Decimal

/-- The largest power of the base that is not above a number, if the base can be squared to beyond
the number in so many turns. -/
theorem leading_spec {n base turns : Nat} (hb : 1 < base) (hn : n < base ^ 2 ^ turns) :
    let r := leading n turns base
    r.1 = n / base ^ r.2 ∧ r.1 < base ∧ (r.2 ≠ 0 → base ^ r.2 ≤ n) := by
  induction turns generalizing base with
  | zero => simpa [leading] using hn
  | succ turns ih =>
    rw [leading]
    by_cases hlt : n < base
    · simp [hlt]
    · have hpos : 0 < base := by omega
      have hsquare : n < (base * base) ^ 2 ^ turns := by
        rwa [← pow_two, ← pow_mul, ← pow_succ']
      obtain ⟨hq, hle, hfit⟩ := ih (Nat.one_lt_mul_iff.mpr ⟨hpos, hpos, .inl hb⟩) hsquare
      generalize leading n turns (base * base) = r at hq hle hfit ⊢
      have hpow : (base * base) ^ r.2 = base ^ (2 * r.2) := by rw [← pow_two, ← pow_mul]
      rw [hpow] at hq hfit
      rw [if_neg hlt]
      dsimp only
      by_cases hr : r.1 < base
      · rw [if_pos hr]
        exact ⟨hq, hr, fun he => hfit (by omega)⟩
      · rw [if_neg hr]
        refine ⟨?_, Nat.div_lt_of_lt_mul hle, fun _ => ?_⟩
        · rw [pow_succ, ← Nat.div_div_eq_div_mul, hq]
        · rw [hq, Nat.not_lt, Nat.le_div_iff_mul_le (Nat.pow_pos hpos)] at hr
          rwa [pow_succ']

theorem size_pos (n : Nat) : 0 < size n := Nat.succ_pos _

theorem size_le_iff {n k : Nat} (hk : 0 < k) : size n ≤ k ↔ n < 10 ^ k := by
  have hturns : n < 10 ^ 2 ^ (Nat.log2 n + 1) :=
    calc n < 2 ^ (Nat.log2 n + 1) := Nat.lt_log2_self
      _ ≤ 2 ^ 2 ^ (Nat.log2 n + 1) := Nat.pow_le_pow_right (by decide) Nat.lt_two_pow_self.le
      _ ≤ 10 ^ 2 ^ (Nat.log2 n + 1) := Nat.pow_le_pow_left (by decide) _
  obtain ⟨hq, hlt, hfit⟩ := leading_spec (by decide) hturns
  rw [size]
  generalize leading n (Nat.log2 n + 1) 10 = r at hq hlt hfit ⊢
  rw [hq, Nat.div_lt_iff_lt_mul (Nat.pow_pos (by decide)), ← pow_succ'] at hlt
  constructor
  · intro h
    exact hlt.trans_le (Nat.pow_le_pow_right (by decide) h)
  · intro h
    by_contra hle
    have hpow : 10 ^ r.2 < 10 ^ k := (hfit (by omega)).trans_lt h
    have hexp := (Nat.pow_lt_pow_iff_right (by decide)).mp hpow
    omega

theorem size_eq (n : Nat) : size n = (digitsOf n).length := by
  have hpos : 0 < (digitsOf n).length := List.length_pos_iff.mpr Nat.toDigits_ne_nil
  have hlength : ∀ k, 0 < k → ((digitsOf n).length ≤ k ↔ n < 10 ^ k) := fun k hk =>
    Nat.length_toDigits_le_iff (by decide) hk
  refine le_antisymm ((size_le_iff hpos).mpr ((hlength _ hpos).mp le_rfl)) ?_
  exact (hlength _ (size_pos n)).mpr ((size_le_iff (size_pos n)).mp le_rfl)

theorem lt_pow_size (n : Nat) : n < 10 ^ size n := (size_le_iff (size_pos n)).mp le_rfl

theorem pow_le_of_size {n k : Nat} (hk : 0 < k) (h : k < size n) : 10 ^ k ≤ n :=
  Nat.not_lt.mp fun hn => Nat.not_le.mpr h ((size_le_iff hk).mpr hn)

theorem size_mono {a b : Nat} (h : a ≤ b) : size a ≤ size b :=
  (size_le_iff (size_pos b)).mpr (h.trans_lt (lt_pow_size b))

theorem half_pow_ten {k : Nat} (h : 0 < k) : 2 * (Nat.pow 10 k / 2) = 10 ^ k := by
  exact Nat.mul_div_cancel' ((by decide : 2 ∣ 10).trans (dvd_pow_self 10 h.ne'))

theorem dropEven_bounds (n k : Nat) :
    n / 10 ^ k ≤ dropEven n k ∧ dropEven n k ≤ n / 10 ^ k + 1 := by
  rw [dropEven]
  dsimp only [Nat.pow_eq]
  split_ifs <;> omega

theorem dropEven_mono {a b : Nat} (k : Nat) (h : a ≤ b) : dropEven a k ≤ dropEven b k := by
  rcases (Nat.div_le_div_right h : a / 10 ^ k ≤ b / 10 ^ k).lt_or_eq with hq | hq
  · exact ((dropEven_bounds a k).2.trans hq).trans (dropEven_bounds b k).1
  · -- of two numbers between the same neighbours the greater one has the greater rest
    have hr : a % 10 ^ k ≤ b % 10 ^ k := by
      have ha := Nat.div_add_mod a (10 ^ k)
      have hb := Nat.div_add_mod b (10 ^ k)
      rw [hq] at ha
      omega
    rw [dropEven, dropEven]
    dsimp only [Nat.pow_eq]
    rw [hq]
    split_ifs <;> omega

theorem dropEven_mul_pow (c k : Nat) : dropEven (c * 10 ^ k) k = c := by
  have hp : 0 < 10 ^ k := Nat.pow_pos (by decide)
  rw [dropEven]
  dsimp only [Nat.pow_eq]
  rw [if_pos (by rw [Nat.mul_mod_left]; exact hp), Nat.mul_div_cancel c hp]

def precise (n : Nat) : Nat := dropEven n (size n - precision) * 10 ^ (size n - precision)

theorem precise_of_lt {n : Nat} (h : n < 10 ^ precision) : precise n = n := by
  have hs : size n - precision = 0 := Nat.sub_eq_zero_of_le ((size_le_iff (by decide)).mpr h)
  have he := dropEven_mul_pow n 0
  rw [pow_zero, Nat.mul_one] at he
  rw [precise, hs, he, pow_zero, Nat.mul_one]

theorem dropEven_pow {s k : Nat} (h : k ≤ s) : dropEven (10 ^ s) k * 10 ^ k = 10 ^ s := by
  have hs : 10 ^ s = 10 ^ (s - k) * 10 ^ k := by rw [← pow_add, Nat.sub_add_cancel h]
  rw [hs, dropEven_mul_pow]

theorem precise_le_pow {n s : Nat} (hs : 0 < s) (h : n < 10 ^ s) : precise n ≤ 10 ^ s := by
  have hk : size n - precision ≤ s := ((size_le_iff hs).mpr h).trans' (Nat.sub_le _ _)
  rw [← dropEven_pow hk]
  exact Nat.mul_le_mul_right _ (dropEven_mono _ h.le)

theorem pow_le_precise {n s : Nat} (h : size n = s + 1) (hn : 10 ^ s ≤ n) :
    10 ^ s ≤ precise n := by
  have hk : size n - precision ≤ s := by
    have : 0 < precision := by decide
    omega
  rw [← dropEven_pow hk]
  exact Nat.mul_le_mul_right _ (dropEven_mono _ hn)

/-- Of numbers with more digits more are dropped; a power of ten lies between them. -/
theorem precise_mono {a b : Nat} (h : a ≤ b) : precise a ≤ precise b := by
  rcases (size_mono h).lt_or_eq with hs | hs
  · obtain ⟨s, hb⟩ := Nat.exists_eq_succ_of_ne_zero (size_pos b).ne'
    have hpos : 0 < s := by
      have := size_pos a
      omega
    have ha : a < 10 ^ s := (size_le_iff hpos).mp (by omega)
    have hn : 10 ^ s ≤ b := pow_le_of_size hpos (by omega)
    exact (precise_le_pow hpos ha).trans (pow_le_precise hb hn)
  · rw [precise, precise, hs]
    exact Nat.mul_le_mul_right _ (dropEven_mono _ h)

theorem dropUp_mono {a b : Nat} (k : Nat) (h : a ≤ b) : dropUp a k ≤ dropUp b k :=
  Nat.div_le_div_right (Nat.add_le_add_right h _)

theorem dropUp_le (n k : Nat) (h : 0 < k) : dropUp n k ≤ n := by
  have hh := half_pow_ten h
  have hk : 1 < 10 ^ k := Nat.one_lt_pow h.ne' (by decide)
  rw [dropUp, Nat.pow_eq] at *
  rcases Nat.eq_zero_or_pos n with rfl | hn
  · rw [Nat.zero_add, Nat.div_eq_of_lt (by omega)]
  · refine Nat.div_le_of_le_mul ?_
    nlinarith

theorem dropUp_eq_zero {n k : Nat} (h : size n < k) : dropUp n k = 0 := by
  have hs := size_pos n
  have hn : n < 10 ^ (k - 1) := (size_le_iff (by omega)).mp (by omega)
  have hh := half_pow_ten (k := k) (by omega)
  have hk : 10 ^ k = 10 * 10 ^ (k - 1) := by rw [← pow_succ']; congr; omega
  rw [dropUp, Nat.pow_eq] at *
  exact Nat.div_eq_of_lt (by omega)

/-- Nothing is rounded away where the number ends in more zeros than digits are dropped. -/
theorem dropUp_mul_pow_of_le (c : Nat) {j e : Nat} (hj : 0 < j) (h : j ≤ e) :
    dropUp (c * 10 ^ e) j = c * 10 ^ (e - j) := by
  have hh := half_pow_ten hj
  have hp : 0 < 10 ^ j := Nat.pow_pos (by decide)
  have he : c * 10 ^ e = c * 10 ^ (e - j) * 10 ^ j := by
    rw [Nat.mul_assoc, ← pow_add, Nat.sub_add_cancel h]
  rw [dropUp, he, Nat.pow_eq, Nat.add_comm, Nat.add_mul_div_right _ _ hp, Nat.div_eq_of_lt,
    Nat.zero_add]
  rw [Nat.pow_eq] at hh
  omega

theorem dropUp_mul_pow_of_lt (c : Nat) {j e : Nat} (h : e < j) :
    dropUp (c * 10 ^ e) j = dropUp c (j - e) := by
  have hp : 0 < 10 ^ e := Nat.pow_pos (by decide)
  have hj : 10 ^ j = 10 ^ (j - e) * 10 ^ e := by rw [← pow_add, Nat.sub_add_cancel h.le]
  have hhalf : 10 ^ j / 2 = 10 ^ (j - e) / 2 * 10 ^ e := by
    have hje := half_pow_ten (Nat.sub_pos_of_lt h)
    rw [Nat.pow_eq] at hje
    refine Nat.div_eq_of_eq_mul_right (by decide) ?_
    rw [← Nat.mul_assoc, hje, hj]
  rw [dropUp, dropUp, Nat.pow_eq, Nat.pow_eq, hhalf, hj, ← Nat.add_mul,
    Nat.mul_div_mul_right _ _ hp]

theorem size_mul_pow {c : Nat} (hc : 0 < c) (s : Nat) : size (c * 10 ^ s) = size c + s := by
  have hpos : 0 < 10 ^ s := Nat.pow_pos (by decide)
  refine le_antisymm ((size_le_iff (Nat.add_pos_left (size_pos c) s)).mpr ?_) ?_
  · rw [pow_add]
    exact Nat.mul_lt_mul_of_pos_right (lt_pow_size c) hpos
  · obtain ⟨k, hk⟩ := Nat.exists_eq_succ_of_ne_zero (size_pos c).ne'
    by_contra hlt
    have hlow : c * 10 ^ s < 10 ^ (k + s) := by
      rw [← size_le_iff (Nat.pos_of_ne_zero ?_)]
      · omega
      · rintro hz
        obtain ⟨rfl, rfl⟩ : k = 0 ∧ s = 0 := by omega
        rw [pow_zero, Nat.mul_one, hk] at hlt
        exact hlt le_rfl
    rw [pow_add, Nat.mul_lt_mul_right hpos] at hlow
    rcases Nat.eq_zero_or_pos k with rfl | hkpos
    · rw [pow_zero] at hlow
      omega
    · exact Nat.not_le.mpr hlow (pow_le_of_size hkpos (by omega))

/-- Bringing a number to its places is rounding it, but where digits would have to be appended
beyond the precision. -/
theorem rescaled?_eq (negative : Bool) (c e : Nat) {k places : Nat} (hp : places < k) :
    rescaled? ⟨negative, c, (e : Int) - k⟩ places =
      if k - places ≤ e ∧ 10 ^ precision ≤ dropUp (c * 10 ^ e) (k - places) then none
      else some (dropUp (c * 10 ^ e) (k - places)) := by
  rw [rescaled?]
  dsimp only
  rcases Nat.eq_zero_or_pos c with rfl | hc
  · have hz := Nat.le_zero.mp (dropUp_le 0 (k - places) (by omega))
    rw [if_pos rfl, Nat.zero_mul, hz, if_neg (by simp)]
  · rw [if_neg hc.ne']
    by_cases he : k - places ≤ e
    · have hs : (e : Int) - k + places = (e - (k - places) : Nat) := by omega
      rw [hs, if_pos (by omega), Int.toNat_natCast, dropUp_mul_pow_of_le c (by omega) he,
        ← size_mul_pow hc]
      have hiff := size_le_iff (n := c * 10 ^ (e - (k - places))) (k := precision) (by decide)
      by_cases hlt : c * 10 ^ (e - (k - places)) < 10 ^ precision
      · rw [if_neg (Nat.not_lt.mpr (hiff.mpr hlt)), if_neg (fun h => Nat.not_lt.mpr h.2 hlt)]
        rfl
      · rw [if_pos (Nat.not_le.mp (mt hiff.mp hlt)), if_pos ⟨he, Nat.not_lt.mp hlt⟩]
    · have hs : -((e : Int) - k + places) = (k - places - e : Nat) := by omega
      have hneg : ¬ 0 ≤ (e : Int) - k + places := by omega
      have hkept : ¬ (k - places ≤ e ∧ 10 ^ precision ≤ dropUp (c * 10 ^ e) (k - places)) :=
        fun h => he h.1
      rw [if_neg hneg, if_neg hkept, hs, Int.toNat_natCast, dropUp_mul_pow_of_lt c (by omega)]
      split
      · rename_i h
        rw [dropUp_eq_zero h]
      · rfl

/-- A number at fewer places than its power of ten has is rounded, a half upwards. It is refused
where it needs more digits there than the precision has. -/
theorem quantize?_eq (negative : Bool) (c e : Nat) {k places : Nat} (hp : places < k) :
    quantize? ⟨negative, c, (e : Int) - k⟩ places =
      if dropUp (c * 10 ^ e) (k - places) < 10 ^ precision then
        some ⟨negative, dropUp (c * 10 ^ e) (k - places), -(places : Int)⟩
      else none := by
  rw [quantize?, rescaled?_eq _ _ _ hp]
  generalize dropUp (c * 10 ^ e) (k - places) = r
  have hiff := size_le_iff (n := r) (k := precision) (by decide)
  by_cases hr : r < 10 ^ precision
  · have hsize := hiff.mpr hr
    rw [if_pos hr, if_neg fun h => Nat.not_lt.mpr h.2 hr]
    dsimp only
    rw [if_neg]
    simp only [precision, maxExponent] at hsize ⊢
    omega
  · have hsize : precision < size r := Nat.not_le.mp (mt hiff.mp hr)
    rw [if_neg hr]
    split_ifs
    · rfl
    · exact if_pos (.inl hsize)

/-- A number between an odd one and its even neighbour is rounded to the even one from the middle
on. -/
theorem dropEven_of_odd {q r k : Nat} (hq : q % 2 = 1) (hr : r < 10 ^ k) :
    dropEven (q * 10 ^ k + r) k = if 2 * r < 10 ^ k then q else q + 1 := by
  have hdiv : (q * 10 ^ k + r) / 10 ^ k = q := by
    rw [Nat.mul_comm, Nat.mul_add_div (by omega), Nat.div_eq_of_lt hr, Nat.add_zero]
  have hmod : (q * 10 ^ k + r) % 10 ^ k = r := by
    rw [Nat.mul_comm, Nat.mul_add_mod, Nat.mod_eq_of_lt hr]
  simp only [dropEven, Nat.pow_eq, hdiv, hmod, hq]
  split_ifs <;> rfl

/-- The numbers with so many digits that begin with as many nines as the precision has. -/
theorem precise_of_nines {m r : Nat} (hr : r < 10 ^ (m + 1)) :
    precise ((10 ^ 28 - 1) * 10 ^ (m + 1) + r) =
      (if 2 * r < 10 ^ (m + 1) then 10 ^ 28 - 1 else 10 ^ 28) * 10 ^ (m + 1) := by
  have hsize : size ((10 ^ 28 - 1) * 10 ^ (m + 1) + r) - precision = m + 1 := by
    have hpow : 10 ^ (28 + (m + 1)) = 10 ^ 28 * 10 ^ (m + 1) := pow_add ..
    have hlow : 10 ^ (27 + (m + 1)) = 10 ^ 27 * 10 ^ (m + 1) := pow_add ..
    have hle := (size_le_iff (n := (10 ^ 28 - 1) * 10 ^ (m + 1) + r) (k := 28 + (m + 1))
      (by omega)).mpr (by omega)
    have hlt := mt (size_le_iff (n := (10 ^ 28 - 1) * 10 ^ (m + 1) + r) (k := 27 + (m + 1))
      (by omega)).mp (by omega)
    rw [precision]
    omega
  rw [precise, hsize, dropEven_of_odd (by decide) hr, Nat.sub_add_cancel (by decide)]

/-- Halfway below a power of ten, and from there on, a number is rounded up to it. -/
theorem pow_le_precise_iff (n m : Nat) :
    10 ^ (m + 29) ≤ precise n ↔ 10 ^ (m + 29) - 5 * 10 ^ m ≤ n := by
  have hp : 0 < 10 ^ m := Nat.pow_pos (by decide)
  have hlast : 10 ^ (m + 1) = 10 * 10 ^ m := pow_succ' 10 m
  have hpow : 10 ^ (m + 29) = 10 ^ 28 * 10 ^ (m + 1) := by rw [← pow_add]; congr 1; omega
  have hmiddle : 10 ^ (m + 29) - 5 * 10 ^ m = (10 ^ 28 - 1) * 10 ^ (m + 1) + 5 * 10 ^ m := by
    omega
  rw [hmiddle, hpow]
  constructor
  · intro h
    by_contra hn
    have hle := precise_mono (Nat.le_pred_of_lt (Nat.not_le.mp hn))
    rw [Nat.pred_eq_sub_one, Nat.add_sub_assoc (by omega),
      precise_of_nines (by omega), if_pos (by omega)] at hle
    omega
  · intro h
    have hle := precise_mono h
    rw [precise_of_nines (by omega), if_neg (by omega)] at hle
    exact hle

theorem adjusted_iff (c e k : Nat) :
    (c ≠ 0 ∧ maxExponent < adjusted ⟨false, c, (e : Int) - k⟩) ↔
      10 ^ (1000000 + k) ≤ c * 10 ^ e := by
  rcases Nat.eq_zero_or_pos c with rfl | hc
  · have hpow : 0 < 10 ^ (1000000 + k) := Nat.pow_pos (by decide)
    simp only [ne_eq, not_true, false_and, Nat.zero_mul, false_iff]
    omega
  · have hsize := not_congr (size_le_iff (n := c * 10 ^ e) (k := 1000000 + k) (by omega))
    rw [Nat.not_lt, Nat.not_le, size_mul_pow hc] at hsize
    rw [← hsize, adjusted, maxExponent, and_iff_right hc.ne']
    dsimp only
    omega

/-- A quotient by a power of ten is refused where the number is rounded to one whose first digit
lies beyond the largest exponent. -/
theorem divPowerOfTen_eq (n k : Nat) :
    (ofNat n).divPowerOfTen k =
      if 10 ^ (1000000 + k) ≤ precise n then .error .decimalOverflow
      else
        .ok ⟨false, dropEven n (size n - precision), ((size n - precision : Nat) : Int) - k⟩ := by
  have hexp : (0 : Int) - k + (size n - precision : Nat) =
      ((size n - precision : Nat) : Int) - k := by omega
  have hfirst := adjusted_iff (dropEven n (size n - precision)) (size n - precision) k
  rw [← precise] at hfirst
  simp only [divPowerOfTen, toPrecision, ofNat, hexp, hfirst]

/-- A quotient by a power of ten with fewer places than the power has zeros is that of the
number at the working precision. -/
theorem quantize?_divPowerOfTen {n k places : Nat} (hp : places < k) {q : Decimal}
    (hq : (ofNat n).divPowerOfTen k = .ok q) :
    q.quantize? places =
      if dropUp (precise n) (k - places) < 10 ^ precision then
        some ⟨false, dropUp (precise n) (k - places), -(places : Int)⟩
      else none := by
  rw [divPowerOfTen_eq] at hq
  split_ifs at hq
  cases hq
  rw [quantize?_eq _ _ _ hp, precise]

end TrafficIndicator.Decimal
