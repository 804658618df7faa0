import Mathlib.Tactic.Positivity
import Mathlib.Tactic.SplitIfs
import TrafficIndicator.Time.Rounded

/-!
All rounded times that are numbers are ordered, infinities included. The difference of two finite
times is a number, though it may be infinite, and so is a finite time at any finite scale. A time
that is not negative stays one when it is scaled or another is added. A positive time has no
minus, nor has what is made of such numbers by dividing and adding, so a rate over a positive time
is not negative.
-/
namespace TrafficIndicator.Rounded

open Float.Model Float.Model.UnpackedFloat

def sign? : UnpackedFloat → Option Sign
  | .infinity s => some s
  | .notANumber => none
  | .zero s => some s
  | .finite s _ _ _ => some s

theorem unpackSign_packComponents {spec : Format} (s : Sign) (e : BitVec spec.exponentBits)
    (m : BitVec spec.mantissaBitsWithoutImplicit) :
    unpackSign (packComponents spec s e m) = s.toBitVec := by
  refine BitVec.eq_of_getElem_eq fun i hi => ?_
  cases Nat.lt_one_iff.mp hi
  delta unpackSign packComponents
  simp [BitVec.getLsbD_append, BitVec.getElem_append]

theorem ofBitVec_toBitVec (s : Sign) : Sign.ofBitVec s.toBitVec = s := by
  cases s <;> rfl

/-- A word is not a number if its exponent is the greatest and there is a fraction. -/
theorem sign?_unpack {spec : Format} (b : BitVec spec.numBits) :
    sign? (UnpackedFloat.unpack spec b) =
      if unpackExponent b = -1#_ ∧ unpackMantissa b ≠ 0#_ then none
      else some (Sign.ofBitVec (unpackSign b)) := by
  delta UnpackedFloat.unpack
  dsimp only
  by_cases he : unpackExponent b = -1#_
  · rw [if_pos he]
    by_cases hm : unpackMantissa b = 0#_
    · rw [if_pos hm, if_neg fun h => h.2 hm]
      rfl
    · rw [if_neg hm, if_pos ⟨he, hm⟩]
      rfl
  · have hn : ¬ (unpackExponent b = -1#_ ∧ unpackMantissa b ≠ 0#_) := fun h => he h.1
    rw [if_neg he, if_neg hn]
    by_cases hz : unpackExponent b = 0#_
    · rw [if_pos hz]
      by_cases hm : unpackMantissa b = 0#_
      · rw [dif_pos hm]
        rfl
      · rw [dif_neg hm]
        rfl
    · rw [if_neg hz]
      rfl

theorem sign?_unpack_packComponents {spec : Format} (s : Sign) (e : BitVec spec.exponentBits)
    (m : BitVec spec.mantissaBitsWithoutImplicit) :
    sign? (UnpackedFloat.unpack spec (packComponents spec s e m)) =
      if e = -1#_ ∧ m ≠ 0#_ then none else some s := by
  rw [sign?_unpack, unpackExponent_packComponents, unpackMantissa_packComponents,
    unpackSign_packComponents, ofBitVec_toBitVec]

theorem sign?_unpack_packedInfinity (spec : Format) (s : Sign) :
    sign? (UnpackedFloat.unpack spec (packedInfinity spec s)) = some s := by
  rw [packedInfinity, sign?_unpack_packComponents, if_neg fun h => h.2 rfl]

theorem sign?_unpack_packedZero (spec : Format) (s : Sign) :
    sign? (UnpackedFloat.unpack spec (packedZero spec s)) = some s := by
  rw [packedZero, sign?_unpack_packComponents, if_neg fun h => h.2 rfl]

theorem sign?_unpack_pack (x : UnpackedFloat) :
    sign? (Float.Model.pack x).unpack = sign? x := by
  change sign? (UnpackedFloat.unpack Format.binary64 (UnpackedFloat.pack Format.binary64 x)) = _
  cases x with
  | notANumber => rfl
  | infinity s => exact sign?_unpack_packedInfinity _ s
  | zero s => exact sign?_unpack_packedZero _ s
  | finite s m e hm =>
    change _ = some s
    delta UnpackedFloat.pack
    dsimp only
    generalize (e + Format.binary64.exponentBias + (52 : Nat)).toNat = biased
    by_cases hlarge : 2 ^ 11 ≤ biased + 1
    · rw [if_pos hlarge]
      exact sign?_unpack_packedInfinity _ s
    · rw [if_neg hlarge]
      by_cases hnormal : m.log2 + 1 = Format.binary64.mantissaBits
      · rw [if_pos hnormal, sign?_unpack_packComponents, if_neg]
        rintro ⟨he, -⟩
        have hn : biased % 2 ^ 11 = 2047 := congrArg BitVec.toNat he
        omega
      · rw [if_neg hnormal, sign?_unpack_packComponents, if_neg]
        rintro ⟨he, -⟩
        exact absurd he (by decide)

theorem sign?_roundWithAccuracy (spec : Format) (s : Sign) (m : Nat) (e : Int) (a : Accuracy) :
    sign? (roundWithAccuracy spec s m e a) = some s := by
  rw [roundWithAccuracy]
  generalize shiftToTargetExponent spec m e a = shifted
  obtain ⟨rounded, f⟩ := shifted
  dsimp only
  generalize shiftToTargetExponent spec rounded.roundedMantissa f .exact = final
  obtain ⟨⟨mantissa, _, _⟩, g⟩ := final
  cases mantissa <;> rfl

theorem sign?_round (spec : Format) (s : Sign) (m : Nat) (e : Int) :
    sign? (UnpackedFloat.round spec s m e) = some s := sign?_roundWithAccuracy ..

theorem sign?_normalize_ne (spec : Format) (m e : Int) (z : Sign) :
    sign? (UnpackedFloat.normalize spec m e z) ≠ none := by
  rw [UnpackedFloat.normalize]
  split
  · rw [sign?_round]
    exact Option.some_ne_none _
  · exact Option.some_ne_none _
  · rw [sign?_round]
    exact Option.some_ne_none _

theorem sign?_normalize_of_pos {spec : Format} {m : Int} (e : Int) (z : Sign) (h : 0 < m) :
    sign? (UnpackedFloat.normalize spec m e z) = some .positive := by
  rw [UnpackedFloat.normalize, Int.compare_eq_gt.mpr h]
  exact sign?_round ..

theorem sign?_sub_ne {spec : Format} {x y : UnpackedFloat} (hx : x.isFinite = true)
    (hy : y.isFinite = true) : sign? (UnpackedFloat.sub spec x y) ≠ none := by
  cases x <;> cases y <;> first | contradiction | skip
  · delta UnpackedFloat.sub
    dsimp only
    split_ifs <;> exact Option.some_ne_none _
  · exact Option.some_ne_none _
  · exact Option.some_ne_none _
  · exact sign?_normalize_ne _ _ _ _

theorem sign?_mul_ne {spec : Format} {x y : UnpackedFloat} (hx : x.isFinite = true)
    (hy : y.isFinite = true) : sign? (UnpackedFloat.mul spec x y) ≠ none := by
  cases x <;> cases y <;> first | contradiction | skip
  · exact Option.some_ne_none _
  · exact Option.some_ne_none _
  · exact Option.some_ne_none _
  · exact ne_of_eq_of_ne (sign?_roundWithAccuracy _ _ _ _ _) (Option.some_ne_none _)

inductive Unsigned : UnpackedFloat → Prop where
  | notANumber : Unsigned .notANumber
  | infinity : Unsigned (.infinity .positive)
  | zero : Unsigned (.zero .positive)
  | finite (m : Nat) (e : Int) (h : 0 < m) : Unsigned (.finite .positive m e h)

theorem unsigned_iff (x : UnpackedFloat) : Unsigned x ↔ sign? x ≠ some .negative := by
  constructor
  · rintro (_ | _ | _ | _) <;> exact nofun
  · intro h
    rcases x with (_ | _) | _ | (_ | _) | ⟨_ | _, m, e, hm⟩
    · exact absurd rfl h
    · exact .infinity
    · exact .notANumber
    · exact absurd rfl h
    · exact .zero
    · exact absurd rfl h
    · exact .finite m e hm

theorem Unsigned.of_positive {x : UnpackedFloat} (h : sign? x = some .positive) : Unsigned x := by
  rw [unsigned_iff, h]
  exact nofun

theorem Unsigned.pack {x : UnpackedFloat} (h : Unsigned x) :
    Unsigned (Float.Model.pack x).unpack := by
  rwa [unsigned_iff, sign?_unpack_pack, ← unsigned_iff]

theorem Unsigned.div {spec : Format} {x y : UnpackedFloat} (hx : Unsigned x) (hy : Unsigned y) :
    Unsigned (UnpackedFloat.div spec x y) := by
  cases hx <;> cases hy <;>
    first | constructor | exact .of_positive (sign?_roundWithAccuracy _ _ _ _ _)

theorem Unsigned.add {spec : Format} {x y : UnpackedFloat} (hx : Unsigned x) (hy : Unsigned y) :
    Unsigned (UnpackedFloat.add spec x y) := by
  cases hx with
  | notANumber => constructor
  | infinity => cases hy <;> constructor
  | zero => cases hy <;> constructor
  | finite m e hm =>
    cases hy with
    | notANumber => constructor
    | infinity => constructor
    | zero => constructor
    | finite n f hn =>
      refine .of_positive (sign?_normalize_of_pos _ _ ?_)
      simp only [Sign.apply, Nat.shiftLeft_eq]
      positivity

/-- What decides the order of numbers: the side of zero on which they are and whether they are
infinite, then the exponent, then the mantissa. -/
def rank : UnpackedFloat → Int × Int × Int
  | .infinity .negative => (-2, 0, 0)
  | .finite .negative m e _ => (-1, -e, -m)
  | .zero _ | .notANumber => (0, 0, 0)
  | .finite .positive m e _ => (1, e, m)
  | .infinity .positive => (2, 0, 0)

def byRank : UnpackedFloat → UnpackedFloat → Ordering :=
  compareLex (compareOn fun x => (rank x).1)
    (compareLex (compareOn fun x => (rank x).2.1) (compareOn fun x => (rank x).2.2))

instance : Std.TransCmp byRank :=
  inferInstanceAs (Std.TransCmp (compareLex _ (compareLex _ _)))

theorem byRank_swap (x y : UnpackedFloat) : byRank y x = (byRank x y).swap :=
  Std.OrientedCmp.eq_swap

theorem compare_natCast (m n : Nat) : compare (m : Int) n = compare m n := by
  rw [Int.compare_eq_ite_lt, Nat.compare_eq_ite_lt]
  simp

theorem compare_neg (m n : Int) : compare (-m) (-n) = (compare m n).swap := by
  rw [Int.compare_swap, Int.compare_eq_ite_lt, Int.compare_eq_ite_lt]
  simp

theorem compare_eq_byRank {x y : UnpackedFloat} (hx : sign? x ≠ none) (hy : sign? y ≠ none) :
    UnpackedFloat.compare x y = some (byRank x y) := by
  rcases x with (_ | _) | _ | (_ | _) | ⟨_ | _, m, e, _⟩ <;>
    rcases y with (_ | _) | _ | (_ | _) | ⟨_ | _, n, f, _⟩ <;>
    first | contradiction | rfl | refine congrArg some ?_
  · change _ = (compare (-e) (-f)).then (compare (-(m : Int)) (-n))
    rw [compare_neg, compare_neg, compare_natCast, Ordering.swap_then]
  · change _ = (compare e f).then (compare (m : Int) n)
    rw [compare_natCast]

theorem isNaN_iff (x : Float) : x.isNaN = false ↔ sign? x.toModel.unpack ≠ none := by
  change x.toModel.unpack.isNaN = false ↔ _
  cases x.toModel.unpack with
  | notANumber => exact ⟨Bool.noConfusion, fun h => absurd rfl h⟩
  | infinity | zero | finite => exact ⟨fun _ => Option.some_ne_none _, fun _ => rfl⟩

theorem isNaN_sub {x y : Float} (hx : x.isFinite = true) (hy : y.isFinite = true) :
    (x - y).isNaN = false := by
  rw [isNaN_iff]
  change sign? (Float.Model.pack _).unpack ≠ none
  rw [sign?_unpack_pack]
  exact sign?_sub_ne hx hy

theorem isNaN_mul {x y : Float} (hx : x.isFinite = true) (hy : y.isFinite = true) :
    (x * y).isNaN = false := by
  rw [isNaN_iff]
  change sign? (Float.Model.pack _).unpack ≠ none
  rw [sign?_unpack_pack]
  exact sign?_mul_ne hx hy

theorem le_iff (x y : Float) :
    x ≤ y ↔ (UnpackedFloat.compare x.toModel.unpack y.toModel.unpack).any (·.isLE) = true := by
  exact decide_eq_true_iff

theorem lt_iff (x y : Float) :
    x < y ↔ UnpackedFloat.compare x.toModel.unpack y.toModel.unpack = some .lt := by
  exact decide_eq_true_iff.trans beq_iff_eq

theorem le_iff_byRank {x y : Float} (hx : x.isNaN = false) (hy : y.isNaN = false) :
    x ≤ y ↔ (byRank x.toModel.unpack y.toModel.unpack).isLE = true := by
  rw [le_iff, compare_eq_byRank ((isNaN_iff x).mp hx) ((isNaN_iff y).mp hy)]
  rfl

theorem not_lt_iff {x y : Float} (hx : x.isNaN = false) (hy : y.isNaN = false) :
    ¬x < y ↔ y ≤ x := by
  rw [le_iff_byRank hy hx, lt_iff,
    compare_eq_byRank ((isNaN_iff x).mp hx) ((isNaN_iff y).mp hy), byRank_swap]
  cases byRank y.toModel.unpack x.toModel.unpack <;> simp [Ordering.swap]

theorem le_refl {x : Float} (hx : x.isNaN = false) : x ≤ x := by
  rw [le_iff_byRank hx hx]
  exact Std.ReflCmp.isLE_rfl

theorem le_trans {x y z : Float} (hx : x.isNaN = false) (hy : y.isNaN = false)
    (hz : z.isNaN = false) (hxy : x ≤ y) (hyz : y ≤ z) : x ≤ z := by
  rw [le_iff_byRank hx hy] at hxy
  rw [le_iff_byRank hy hz] at hyz
  rw [le_iff_byRank hx hz]
  exact Std.TransCmp.isLE_trans hxy hyz

theorem isNaN_of_lt {x y : Float} (h : x < y) : x.isNaN = false ∧ y.isNaN = false := by
  rw [isNaN_iff, isNaN_iff]
  rw [lt_iff] at h
  generalize x.toModel.unpack = u at h
  generalize y.toModel.unpack = v at h
  constructor
  · rintro hnone
    cases u <;> cases hnone
    cases h
  · rintro hnone
    cases v <;> cases hnone
    cases u <;> cases h

theorem le_of_lt {x y : Float} (h : x < y) : x ≤ y := by
  obtain ⟨hx, hy⟩ := isNaN_of_lt h
  rw [lt_iff, compare_eq_byRank ((isNaN_iff x).mp hx) ((isNaN_iff y).mp hy)] at h
  rw [le_iff_byRank hx hy, Option.some.inj h]
  rfl

theorem unsigned_of_pos {x : Float} (h : 0 < x) : Unsigned x.toModel.unpack := by
  have hz : (0 : Float).toModel.unpack = .zero .positive := by rfl
  rw [lt_iff, hz] at h
  generalize x.toModel.unpack = u at h
  rcases u with (_ | _) | _ | (_ | _) | ⟨_ | _, m, e, hm⟩ <;> first | constructor | cases h

inductive Nonneg : UnpackedFloat → Prop where
  | infinity : Nonneg (.infinity .positive)
  | zero (s : Sign) : Nonneg (.zero s)
  | finite (m : Nat) (e : Int) (h : 0 < m) : Nonneg (.finite .positive m e h)

theorem Nonneg.of_positive {x : UnpackedFloat} (h : sign? x = some .positive) : Nonneg x := by
  rcases x with (_ | _) | _ | (_ | _) | ⟨_ | _, m, e, hm⟩ <;> first | constructor | cases h

theorem nonneg_iff (x : Float) : 0 ≤ x ↔ Nonneg x.toModel.unpack := by
  have hz : (0 : Float).toModel.unpack = .zero .positive := by rfl
  rw [le_iff, hz]
  constructor
  · intro h
    generalize x.toModel.unpack = u at h
    rcases u with (_ | _) | _ | (_ | _) | ⟨_ | _, m, e, hm⟩ <;> first | constructor | cases h
  · intro h
    generalize x.toModel.unpack = u at h
    cases h <;> rfl

theorem isNaN_of_nonneg {x : Float} (h : 0 ≤ x) : x.isNaN = false := by
  rw [nonneg_iff] at h
  rw [isNaN_iff]
  generalize x.toModel.unpack = u at h
  cases h <;> exact Option.some_ne_none _

theorem Nonneg.pack {x : UnpackedFloat} (h : Nonneg x) : Nonneg (Float.Model.pack x).unpack := by
  cases h with
  | infinity | finite =>
    refine .of_positive ?_
    rw [sign?_unpack_pack]
    rfl
  | zero s =>
    have hz : (Float.Model.pack (.zero s)).unpack = .zero s := by cases s <;> rfl
    rw [hz]
    exact .zero s

theorem Nonneg.mul {spec : Format} {x : UnpackedFloat} (hx : Nonneg x) {m : Nat} {e : Int}
    (h : 0 < m) : Nonneg (UnpackedFloat.mul spec x (.finite .positive m e h)) := by
  cases hx with
  | infinity => exact .infinity
  | zero s => exact .zero _
  | finite => exact .of_positive (sign?_roundWithAccuracy _ _ _ _ _)

theorem Nonneg.add {spec : Format} {x y : UnpackedFloat} (hx : Nonneg x) (hy : Nonneg y) :
    Nonneg (UnpackedFloat.add spec x y) := by
  cases hx with
  | infinity => cases hy <;> exact .infinity
  | zero s =>
    cases hy with
    | infinity => exact .infinity
    | zero t => cases s <;> cases t <;> exact .zero _
    | finite => exact .finite _ _ _
  | finite m e hm =>
    cases hy with
    | infinity => exact .infinity
    | zero t => exact .finite _ _ _
    | finite n f hn =>
      refine .of_positive (sign?_normalize_of_pos _ _ ?_)
      simp only [Sign.apply, Nat.shiftLeft_eq]
      positivity

theorem nonneg_mul {x : Float} (h : 0 ≤ x) : 0 ≤ x * 1000.0 := by
  rw [nonneg_iff] at h ⊢
  exact h.mul _ |>.pack

theorem nonneg_add {x y : Float} (hx : 0 ≤ x) (hy : 0 ≤ y) : 0 ≤ x + y := by
  rw [nonneg_iff] at hx hy ⊢
  exact (hx.add hy).pack

theorem toNat_unpackSign (b : UInt64) :
    (@unpackSign Format.binary64 b.toBitVec).toNat = b.toNat / 2 ^ 63 := by
  have := b.toNat_lt
  delta unpackSign
  simp
  omega

theorem toNat_unpackExponent (b : UInt64) :
    (@unpackExponent Format.binary64 b.toBitVec).toNat = b.toNat / 2 ^ 52 % 2 ^ 11 := by
  delta unpackExponent
  simp
  omega

theorem unsigned_ofBits {b : UInt64} (h : b.toNat < 2 ^ 63) :
    Unsigned (Float.ofBits b).toModel.unpack := by
  refine Unsigned.pack ?_
  have hs : @unpackSign Format.binary64 b.toBitVec = 0#1 := by
    apply BitVec.eq_of_toNat_eq
    rw [toNat_unpackSign, Nat.div_eq_of_lt h]
    rfl
  rw [unsigned_iff, sign?_unpack, hs]
  split_ifs <;> exact nofun

theorem ofRatio_lt (n d : Nat) : (Binary64.ofRatio false n d).bits.toNat < 2 ^ 63 := by
  have hmagnitude (m : Nat) (h : m ≤ Binary64.infinityMagnitude) :
      (Binary64.ofMagnitude false m).bits.toNat < 2 ^ 63 := by
    have hlt := h.trans_lt (by decide : Binary64.infinityMagnitude < 2 ^ 63)
    rw [Binary64.ofMagnitude]
    simp only [Bool.false_eq_true, if_false, Nat.zero_add, UInt64.toNat_ofNat']
    omega
  rw [Binary64.ofRatio]
  split_ifs
  · exact hmagnitude 0 (Nat.zero_le _)
  · exact hmagnitude _ (Nat.min_le_right _ _)

theorem unsigned_ofNat? {n : Nat} {d : Binary64} (h : Binary64.ofNat? n = some d) :
    Unsigned d.toFloat.toModel.unpack := by
  refine unsigned_ofBits ?_
  rw [Binary64.ofNat?] at h
  split_ifs at h
  cases h
  exact ofRatio_lt n 1

theorem negative_eq_false {x : Float} (h : Unsigned x.toModel.unpack)
    (hx : (Binary64.ofFloat x).exponentField ≠ 2047) : (Binary64.ofFloat x).negative = false := by
  have he : @unpackExponent Format.binary64 x.toBits.toBitVec ≠ -1#_ := by
    intro he
    have hn := toNat_unpackExponent x.toBits
    rw [he] at hn
    exact hx hn.symm
  rw [unsigned_iff, Float.Model.unpack, sign?_unpack, if_neg fun hc => he hc.1] at h
  by_contra hneg
  rw [Binary64.negative, decide_eq_false_iff_not, not_not] at hneg
  refine h (congrArg some (if_neg fun hs => ?_))
  have hn := toNat_unpackSign x.toBits
  change @unpackSign Format.binary64 x.toBits.toBitVec = 0#1 at hs
  rw [hs] at hn
  exact absurd (hn.trans hneg) (by decide)

theorem toRat?_nonneg {x : Float} (h : Unsigned x.toModel.unpack) {q : ℚ}
    (hq : (Binary64.ofFloat x).toRat? = some q) : 0 ≤ q := by
  by_cases hf : (Binary64.ofFloat x).exponentField = 2047
  · rw [Binary64.toRat?, if_pos hf] at hq
    cases hq
  · rw [Binary64.toRat?, if_neg hf, negative_eq_false h hf] at hq
    dsimp only at hq
    rw [if_neg Bool.false_ne_true] at hq
    split at hq <;> cases hq
    · exact_mod_cast Nat.zero_le _
    · exact Rat.mkRat_nonneg (Int.natCast_nonneg _) _

theorem perSecond_nonneg {delta : Nat} {elapsed : Float} (h : 0 < elapsed) {rate : Int}
    (hr : TimeScale.perSecond delta elapsed = .ok rate) : 0 ≤ rate := by
  have hseconds : Unsigned (elapsed / 1000.0).toModel.unpack :=
    ((unsigned_of_pos h).div (unsigned_of_pos (by decide))).pack
  change Binary64.perSecond delta (elapsed / 1000.0) = .ok rate at hr
  rw [Binary64.perSecond] at hr
  split at hr
  · cases hr
  · rename_i d hd
    split_ifs at hr
    have hquotient : Unsigned (d.toFloat / (elapsed / 1000.0) + 0.5).toModel.unpack :=
      (((unsigned_ofNat? hd).div hseconds).pack.add (unsigned_of_pos (by decide))).pack
    rw [Binary64.floor] at hr
    split at hr
    · rename_i q hq
      cases hr
      exact Rat.le_floor_iff.mpr (by exact_mod_cast toRat?_nonneg hquotient hq)
    · cases hr

end TrafficIndicator.Rounded
