import Mathlib.Data.List.DropRight
import Mathlib.Tactic.Ring
import TrafficIndicator.Proofs.RateLabel

/-!
A numeral without an exponent is a whole number and the digits behind its point, with a minus in
front for a negative number. Its layout follows from the coefficient and the number of places, and
reading it gives the two back.
-/
namespace TrafficIndicator

namespace Text

def figures (ds : List Nat) : List Char := ds.map Nat.digitChar

def Decimals (ds : List Nat) : Prop := ∀ d ∈ ds, d < 10

@[simp] theorem figures_append (ds es : List Nat) :
    figures (ds ++ es) = figures ds ++ figures es := List.map_append

@[simp] theorem length_figures (ds : List Nat) : (figures ds).length = ds.length :=
  List.length_map _

theorem Decimals.append {ds es : List Nat} (hd : Decimals ds) (he : Decimals es) :
    Decimals (ds ++ es) := by
  intro d h
  exact (List.mem_append.mp h).elim (hd d) (he d)

theorem decimalValue?_digitChar {d : Nat} (h : d < 10) :
    decimalValue? (Nat.digitChar d) = some d := by
  revert d
  decide

theorem digitChar_ne {d : Nat} (h : d < 10) {c : Char} (hc : c.isDigit = false) :
    Nat.digitChar d ≠ c := by
  rintro rfl
  simp [Nat.isDigit_digitChar, h] at hc

theorem isBlank_digitChar {d : Nat} (h : d < 10) : isBlank (Nat.digitChar d) = false := by
  revert d
  decide

theorem toLower_digitChar {d : Nat} (h : d < 10) :
    (Nat.digitChar d).toLower = Nat.digitChar d := by
  revert d
  decide

/-- Digits from the most significant on: the digits behind are worth less by their number. -/
theorem ofDigits_append_mul (ds es : List Nat) :
    ofDigits (ds ++ es) = ofDigits ds * 10 ^ es.length + ofDigits es := by
  induction es using List.reverseRecOn with
  | nil => simp [ofDigits]
  | append_singleton es d ih =>
    rw [← List.append_assoc, ofDigits_concat, ofDigits_concat, ih, List.length_append,
      List.length_singleton, pow_succ]
    ring

theorem ofDigits_replicate_zero (k : Nat) : ofDigits (List.replicate k 0) = 0 := by
  induction k with
  | zero => rfl
  | succ k ih => rw [List.replicate_succ', ofDigits_concat, ih]

/-- Behind the digits that stay when zeros are dropped from the end there were only zeros. -/
theorem eq_rdropWhile_append (ds : List Nat) :
    ∃ k, ds = ds.rdropWhile (· = 0) ++ List.replicate k 0 := by
  induction ds using List.reverseRecOn with
  | nil => exact ⟨0, rfl⟩
  | append_singleton ds d ih =>
    by_cases hz : d = 0
    · obtain ⟨k, hk⟩ := ih
      refine ⟨k + 1, ?_⟩
      rw [List.rdropWhile_concat_pos _ _ _ (by simpa using hz), List.replicate_succ',
        ← List.append_assoc, ← hk, hz]
    · refine ⟨0, ?_⟩
      rw [List.rdropWhile_concat_neg _ _ _ (by simpa using hz), List.replicate_zero,
        List.append_nil]

theorem getLast?_rdropWhile (ds : List Nat) : (ds.rdropWhile (· = 0)).getLast? ≠ some 0 := by
  intro h
  have hne : ds.rdropWhile (· = 0) ≠ [] := by
    intro he
    rw [he] at h
    cases h
  rw [List.getLast?_eq_some_getLast hne] at h
  exact List.rdropWhile_last_not _ ds hne (by simpa using h)

theorem Decimals.rdropWhile {ds : List Nat} (h : Decimals ds) (p : Nat → Bool) :
    Decimals (ds.rdropWhile p) := fun d hd => h d ((List.rdropWhile_prefix p ds).subset hd)

theorem digitRun_figures {ds : List Nat} (h : Decimals ds) (rest : List Char)
    (hr : ∀ c ∈ rest.head?, decimalValue? c = none ∧ c ≠ '_') :
    digitRun true (figures ds ++ rest) = some (ds, rest) := by
  induction ds with
  | nil =>
    cases rest with
    | nil => rfl
    | cons c cs =>
      obtain ⟨hv, hu⟩ := hr c rfl
      simp [figures, digitRun, hv, hu]
  | cons d ds ih =>
    have hd := decimalValue?_digitChar (h d List.mem_cons_self)
    have ht := ih fun e he => h e (List.mem_cons_of_mem _ he)
    rw [figures, List.map_cons, List.cons_append, digitRun, hd]
    exact congrArg (Option.map _) ht

theorem optionalRun_figures {ds : List Nat} (h : Decimals ds) (rest : List Char)
    (hr : ∀ c ∈ rest.head?, decimalValue? c = none ∧ c ≠ '_') :
    optionalRun (figures ds ++ rest) = some (ds, rest) := by
  cases ds with
  | nil =>
    cases rest with
    | nil => rfl
    | cons c cs => simp [figures, optionalRun, (hr c rfl).1]
  | cons d ds =>
    have hd := decimalValue?_digitChar (h d List.mem_cons_self)
    have ht := digitRun_figures h rest hr
    rw [figures, List.map_cons, List.cons_append, digitRun, hd] at ht
    rw [figures, List.map_cons, List.cons_append, optionalRun, hd, Option.isSome_some,
      if_pos rfl, digitRun, hd]
    exact ht

end Text

namespace Decimal

open Text

def lastDigits : Nat → Nat → List Nat
  | 0, _ => []
  | p + 1, n => lastDigits p (n / 10) ++ [n % 10]

@[simp] theorem length_lastDigits (p n : Nat) : (lastDigits p n).length = p := by
  induction p generalizing n with
  | zero => rfl
  | succ p ih => simp [lastDigits, ih]

theorem decimals_lastDigits (p n : Nat) : Decimals (lastDigits p n) := by
  induction p generalizing n with
  | zero => simp [lastDigits, Decimals]
  | succ p ih =>
    refine (ih (n / 10)).append ?_
    intro d hd
    rw [List.mem_singleton.mp hd]
    omega

theorem ofDigits_lastDigits (p n : Nat) : n / 10 ^ p * 10 ^ p + ofDigits (lastDigits p n) = n := by
  induction p generalizing n with
  | zero => simp [lastDigits, ofDigits]
  | succ p ih =>
    have hq := ih (n / 10)
    rw [Nat.div_div_eq_div_mul, ← pow_succ'] at hq
    rw [lastDigits, ofDigits_concat]
    have hn := Nat.div_add_mod n 10
    calc n / 10 ^ (p + 1) * 10 ^ (p + 1) + (10 * ofDigits (lastDigits p (n / 10)) + n % 10)
        = 10 * (n / 10 ^ (p + 1) * 10 ^ p + ofDigits (lastDigits p (n / 10))) + n % 10 := by ring
      _ = n := by rw [hq, hn]

/-- The digits of a number are decimal digits, at least one, and denote it. -/
theorem digitsOf_figures (n : Nat) :
    ∃ ds, digitsOf n = figures ds ∧ ds ≠ [] ∧ Decimals ds ∧ ofDigits ds = n := by
  induction n using Nat.strong_induction_on with
  | h n ih =>
    by_cases hn : n < 10
    · refine ⟨[n], Nat.toDigits_of_lt_base hn, List.cons_ne_nil _ _, ?_, by simp [ofDigits]⟩
      intro d hd
      rwa [List.mem_singleton.mp hd]
    · obtain ⟨ds, hc, -, hd, hv⟩ := ih (n / 10) (by omega)
      have hs : digitsOf n = digitsOf (n / 10) ++ [Nat.digitChar (n % 10)] :=
        Nat.toDigits_of_base_le (by decide) (by omega)
      refine ⟨ds ++ [n % 10], ?_, by simp, hd.append ?_, ?_⟩
      · rw [hs, hc, figures_append]
        rfl
      · intro d hm
        rw [List.mem_singleton.mp hm]
        omega
      · rw [ofDigits_concat, hv, Nat.div_add_mod]

def padded (n width : Nat) : List Char :=
  List.replicate (width - (digitsOf n).length) '0' ++ digitsOf n

theorem padded_zero {width : Nat} (h : 0 < width) : padded 0 width = List.replicate width '0' := by
  obtain ⟨w, rfl⟩ := Nat.exists_eq_succ_of_ne_zero h.ne'
  exact List.replicate_succ'.symm

theorem padded_succ (n : Nat) {width : Nat} (h : 0 < width) :
    padded n (width + 1) = padded (n / 10) width ++ [Nat.digitChar (n % 10)] := by
  by_cases hn : n < 10
  · have hd : digitsOf n = [Nat.digitChar n] := Nat.toDigits_of_lt_base hn
    rw [Nat.div_eq_of_lt hn, Nat.mod_eq_of_lt hn, padded_zero h, padded, hd]
    rfl
  · have hd : digitsOf n = digitsOf (n / 10) ++ [Nat.digitChar (n % 10)] :=
      Nat.toDigits_of_base_le (by decide) (by omega)
    rw [padded, padded, hd, List.length_append, List.length_singleton, Nat.add_sub_add_right,
      List.append_assoc]

theorem padded_eq (p n : Nat) :
    padded n (p + 1) = digitsOf (n / 10 ^ p) ++ figures (lastDigits p n) := by
  induction p generalizing n with
  | zero =>
    have hl : 1 - (digitsOf n).length = 0 :=
      Nat.sub_eq_zero_of_le (List.length_pos_iff.mpr Nat.toDigits_ne_nil)
    rw [padded, hl]
    simp [lastDigits, figures]
  | succ p ih =>
    rw [padded_succ n (Nat.succ_pos p), ih, lastDigits, figures_append, Nat.div_div_eq_div_mul,
      ← pow_succ', List.append_assoc]
    rfl

def numeral (whole : Nat) (fraction : List Nat) : List Char :=
  digitsOf whole ++ if fraction = [] then [] else '.' :: figures fraction

def withSign (negative : Bool) (cs : List Char) : List Char := if negative then '-' :: cs else cs

theorem withPoint_digitsOf (n : Nat) {places : Nat} (h : 0 < places) :
    withPoint (digitsOf n) places = numeral (n / 10 ^ places) (lastDigits places n) := by
  have hp := padded_eq places n
  have hne : lastDigits places n ≠ [] := by
    rw [ne_eq, ← List.length_eq_zero_iff, length_lastDigits]
    exact h.ne'
  have hl : (padded n (places + 1)).length - places = (digitsOf (n / 10 ^ places)).length := by
    rw [hp, List.length_append, length_figures, length_lastDigits, Nat.add_sub_cancel]
  rw [withPoint, ← padded, hl, hp, List.take_left, List.drop_left, numeral, if_neg hne]

theorem plain_places (negative : Bool) (n places : Nat) :
    plain ⟨negative, n, -(places : Int)⟩ =
      withSign negative (numeral (n / 10 ^ places) (lastDigits places n)) := by
  cases places with
  | zero => simp [plain, withSign, numeral, lastDigits]
  | succ p =>
    have hs : -((p + 1 : Nat) : Int) < 0 := by omega
    have ha : (- -((p + 1 : Nat) : Int)).toNat = p + 1 := by omega
    rw [plain]
    dsimp only
    rw [if_pos hs, ha, withPoint_digitsOf n (Nat.succ_pos p)]
    rfl

theorem drop_trailing_figures {ds : List Nat} (h : Decimals ds) :
    dropTrailing '0' (figures ds) = figures (ds.rdropWhile (· = 0)) := by
  change (figures ds).rdropWhile (· = '0') = _
  induction ds using List.reverseRecOn with
  | nil => rfl
  | append_singleton ds d ih =>
    have hs : figures (ds ++ [d]) = figures ds ++ [Nat.digitChar d] := figures_append ds [d]
    have hi : Nat.digitChar d = '0' ↔ d = 0 := Nat.digitChar_eq_zero
    by_cases hz : d = 0
    · rw [hs, List.rdropWhile_concat_pos _ _ _ (by simpa using hi.mpr hz),
        List.rdropWhile_concat_pos _ _ _ (by simpa using hz),
        ih fun e he => h e (List.mem_append_left _ he)]
    · rw [hs, List.rdropWhile_concat_neg _ _ _ (by simpa using mt hi.mp hz),
        List.rdropWhile_concat_neg _ _ _ (by simpa using hz), hs]

theorem trim_fraction_cons {c : Char} (hc : c ≠ '.') (cs : List Char) :
    trimFraction (c :: cs) = c :: trimFraction cs := by
  by_cases hm : '.' ∈ cs
  · obtain ⟨as, bs, rfl⟩ := List.append_of_mem hm
    rw [← List.cons_append, trim_fraction_point, trim_fraction_point]
    split_ifs <;> rfl
  · rw [trim_fraction_of_no_point hm, trim_fraction_of_no_point (by simpa [hc.symm] using hm)]

theorem trim_fraction_withSign (negative : Bool) (cs : List Char) :
    trimFraction (withSign negative cs) = withSign negative (trimFraction cs) := by
  cases negative with
  | true => exact trim_fraction_cons (by decide) cs
  | false => rfl

/-- Trimming a numeral takes zeros from the end of its fraction and nothing else. -/
theorem trim_fraction_numeral (whole : Nat) {fraction : List Nat} (h : Decimals fraction) :
    trimFraction (numeral whole fraction) = numeral whole (fraction.rdropWhile (· = 0)) := by
  by_cases hf : fraction = []
  · subst hf
    rw [numeral, if_pos rfl, List.append_nil,
      trim_fraction_of_no_point (point_not_mem_digits whole)]
    simp [numeral]
  · have hk := h.rdropWhile fun d => d = 0
    rw [numeral, if_neg hf, trim_fraction_point, drop_trailing_figures h, numeral]
    generalize fraction.rdropWhile (· = 0) = kept at hk
    cases kept using List.reverseRecOn with
    | nil => simp [figures]
    | append_singleton ds d =>
      have hp : Nat.digitChar d ≠ '.' := digitChar_ne (hk d (by simp)) (by decide)
      simp [figures, hp]

theorem numeral_cons (whole : Nat) (fraction : List Nat) :
    ∃ d cs, d < 10 ∧ numeral whole fraction = Nat.digitChar d :: cs := by
  obtain ⟨ds, hc, hne, hd, -⟩ := digitsOf_figures whole
  obtain ⟨d, es, rfl⟩ := List.exists_cons_of_ne_nil hne
  exact ⟨d, _, hd d List.mem_cons_self, by rw [numeral, hc]; rfl⟩

theorem mem_numeral {whole : Nat} {fraction : List Nat} (h : Decimals fraction) {c : Char}
    (hc : c ∈ numeral whole fraction) : c = '.' ∨ ∃ d, d < 10 ∧ c = Nat.digitChar d := by
  obtain ⟨ds, hw, -, hd, -⟩ := digitsOf_figures whole
  rw [numeral, hw, List.mem_append] at hc
  have hfig : ∀ {es : List Nat}, Decimals es → c ∈ figures es →
      ∃ d, d < 10 ∧ c = Nat.digitChar d := by
    intro es he hm
    obtain ⟨d, hd, rfl⟩ := List.mem_map.mp hm
    exact ⟨d, he d hd, rfl⟩
  rcases hc with hc | hc
  · exact .inr (hfig hd hc)
  · split at hc
    · cases hc
    · rcases List.mem_cons.mp hc with hc | hc
      · exact .inl hc
      · exact .inr (hfig h hc)

theorem signed_withSign (negative : Bool) {d : Nat} (hd : d < 10) (cs : List Char) :
    signed (withSign negative (Nat.digitChar d :: cs)) = (negative, Nat.digitChar d :: cs) := by
  cases negative with
  | true => rfl
  | false => exact signed_of_ne (digitChar_ne hd (by decide)) (digitChar_ne hd (by decide)) cs

/-- A text without blanks and underscores that begins with a digit, or with a minus and a digit, is
no name, and is read as it stands. -/
theorem read?_of_digit (negative : Bool) {d : Nat} (hd : d < 10) {cs : List Char}
    (hc : ∀ c ∈ Nat.digitChar d :: cs, isBlank c = false ∧ c ≠ '_') :
    Datum.read? (withSign negative (Nat.digitChar d :: cs)) =
      ((readUnsigned negative (Nat.digitChar d :: cs)).bind ofScientific?).map .number := by
  have hsign := signed_withSign negative hd cs
  have hall : ∀ c ∈ withSign negative (Nat.digitChar d :: cs), isBlank c = false ∧ c ≠ '_' := by
    cases negative with
    | true => exact List.forall_mem_cons.mpr ⟨by decide, hc⟩
    | false => exact hc
  generalize withSign negative (Nat.digitChar d :: cs) = text at hsign hall
  have htrim : trim text = text :=
    trimWhere_of_ends (fun c hm => (hall c (List.mem_of_mem_head? hm)).1)
      fun c hm => (hall c (List.mem_of_mem_getLast? hm)).1
  have hkept : text.filter (· ≠ '_') = text :=
    List.filter_eq_self.mpr fun c hm => by simpa using (hall c hm).2
  have hname : ∀ {bs name : List Char}, name.head?.any Char.isDigit = false →
      Nat.digitChar d :: bs ≠ name := by
    rintro bs name h rfl
    simp [Nat.isDigit_digitChar, hd] at h
  rw [Datum.read?, htrim, hkept, Scientific.read, hsign]
  dsimp only
  rw [List.map_cons, toLower_digitChar hd, List.take_succ_cons, List.take_succ_cons,
    if_neg (not_or.mpr ⟨hname (by decide), hname (by decide)⟩), if_neg (hname (by decide)),
    if_neg (hname (by decide))]

/-- The coefficient of a numeral whose point is left out. -/
def joined (whole : Nat) (fraction : List Nat) : Nat :=
  whole * 10 ^ fraction.length + ofDigits fraction

theorem readUnsigned_numeral (whole : Nat) {fraction : List Nat} (h : Decimals fraction) :
    ∃ ds, ofDigits ds = joined whole fraction ∧ ∀ negative,
      readUnsigned negative (numeral whole fraction) =
        some ⟨negative, ds, -(fraction.length : Int)⟩ := by
  obtain ⟨ds, hw, hne, hds, hv⟩ := digitsOf_figures whole
  have hrun : optionalRun (numeral whole fraction) =
      some (ds, if fraction = [] then [] else '.' :: figures fraction) := by
    rw [numeral, hw]
    refine optionalRun_figures hds _ fun c hc => ?_
    split at hc
    · cases hc
    · cases hc
      decide
  refine ⟨ds ++ fraction, by rw [ofDigits_append_mul, hv, joined], fun negative => ?_⟩
  rw [readUnsigned, hrun]
  by_cases hf : fraction = []
  · subst hf
    simp [readExponent, hne]
  · have hpart : optionalRun (figures fraction) = some (fraction, []) := by
      have := optionalRun_figures h [] (by simp)
      rwa [List.append_nil] at this
    simp [hf, hpart, readExponent]

theorem read?_withSign_numeral (whole : Nat) {fraction : List Nat} (h : Decimals fraction) :
    ∃ ds, ofDigits ds = joined whole fraction ∧ ∀ negative,
      Datum.read? (withSign negative (numeral whole fraction)) =
        (ofScientific? ⟨negative, ds, -(fraction.length : Int)⟩).map .number := by
  have hchar : ∀ c ∈ numeral whole fraction, isBlank c = false ∧ c ≠ '_' := by
    intro c hc
    rcases mem_numeral h hc with rfl | ⟨d, hd, rfl⟩
    · decide
    · exact ⟨isBlank_digitChar hd, digitChar_ne hd (by decide)⟩
  obtain ⟨ds, hds, hread⟩ := readUnsigned_numeral whole h
  obtain ⟨d, cs, hd, hn⟩ := numeral_cons whole fraction
  rw [hn] at hchar hread ⊢
  refine ⟨ds, hds, fun negative => ?_⟩
  rw [read?_of_digit negative hd hchar, hread, Option.bind_some]

/-- Reading a numeral gives its digits without the point, at as many places as stand behind
it. -/
theorem read?_numeral (whole : Nat) {fraction : List Nat} (h : Decimals fraction)
    (hs : size (joined whole fraction) ≤ precision) (hl : fraction.length ≤ precision) :
    Datum.read? (numeral whole fraction) =
      some (.number ⟨false, joined whole fraction, -(fraction.length : Int)⟩) := by
  obtain ⟨ds, hds, hread⟩ := read?_withSign_numeral whole h
  have hlimits :
      ¬ (literalMaxExponent < -(fraction.length : Int) + size (joined whole fraction) - 1 ∨
        -(fraction.length : Int) < literalLeastExponent) := by
    simp only [literalMaxExponent, literalLeastExponent, precision] at hs hl ⊢
    omega
  refine (hread false).trans ?_
  rw [ofScientific?]
  dsimp only
  rw [hds, if_neg hlimits, Option.map_some]

/-- A minus in front of a numeral changes the sign of its number and nothing else. -/
theorem read?_withSign (negative : Bool) {whole : Nat} {fraction : List Nat} {d : Decimal}
    (h : Decimals fraction) (hd : Datum.read? (numeral whole fraction) = some (.number d)) :
    Datum.read? (withSign negative (numeral whole fraction)) =
      some (.number { d with negative }) := by
  obtain ⟨ds, -, hread⟩ := read?_withSign_numeral whole h
  have hunsigned := (hread false).symm.trans hd
  rw [hread, ofScientific?]
  rw [ofScientific?] at hunsigned
  dsimp only at hunsigned ⊢
  split at hunsigned
  · cases hunsigned
  · cases hunsigned
    rw [if_neg ‹_›]
    rfl

end Decimal

end TrafficIndicator
