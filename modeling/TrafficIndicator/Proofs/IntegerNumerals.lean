import TrafficIndicator.Proofs.Numerals
import TrafficIndicator.Proofs.WorkingPrecision

/-!
The grammar of integer numerals stands beside their reader: a sign or none, decimal digits of any
script with single underscores between them, and characters around that do not count. A text is
read exactly if it is such a numeral with no more digits than a numeral may have; any other text
is refused, for one of two causes. What an integer is written as is read back as the integer.
-/
namespace TrafficIndicator

/-- The causes for which a text is refused as an integer. -/
inductive Fault.Refuses : Fault → Prop where
  | notAnInteger (text : LooseText) : Refuses (.notAnInteger text)
  | numeralTooLong (digits : Nat) : Refuses (.numeralTooLong digits)

namespace Text

inductive Grouped : List Char → List Nat → Prop where
  | last {c : Char} {d : Nat} (h : decimalValue? c = some d) : Grouped [c] [d]
  | next {c : Char} {d : Nat} {cs : List Char} {ds : List Nat} (h : decimalValue? c = some d)
      (hr : Grouped cs ds) : Grouped (c :: cs) (d :: ds)
  | apart {c : Char} {d : Nat} {cs : List Char} {ds : List Nat} (h : decimalValue? c = some d)
      (hr : Grouped cs ds) : Grouped (c :: '_' :: cs) (d :: ds)

inductive Sign where
  | none
  | plus
  | minus
  deriving DecidableEq, Repr

namespace Sign

def chars : Sign → List Char
  | none => []
  | plus => ['+']
  | minus => ['-']

def of (sign : Sign) (n : Nat) : Int := if sign = minus then -(n : Int) else n

end Sign

inductive Bare : List Char → Nat → Int → Prop where
  | mk (sign : Sign) {body : List Char} {ds : List Nat} (h : Grouped body ds) :
      Bare (sign.chars ++ body) ds.length (sign.of (ofDigits ds))

inductive Numeral : List Char → Nat → Int → Prop where
  | mk {before core after : List Char} {digits : Nat} {n : Int}
      (hb : ∀ c ∈ before, isBlank c = true) (ha : ∀ c ∈ after, isBlank c = true)
      (h : Bare core digits n) : Numeral (before ++ core ++ after) digits n

theorem Bare.numeral {cs : List Char} {digits : Nat} {n : Int} (h : Bare cs digits n) :
    Numeral cs digits n := by
  have hnone : ∀ c ∈ ([] : List Char), isBlank c = true := nofun
  have hnumeral := Numeral.mk hnone hnone h
  rwa [List.nil_append, List.append_nil] at hnumeral

theorem decimalValue?_underscore : decimalValue? '_' = none := by decide

inductive Goes : List Char → List Nat → Prop where
  | ends : Goes [] []
  | on {cs : List Char} {ds : List Nat} (h : Grouped cs ds) : Goes cs ds
  | apart {cs : List Char} {ds : List Nat} (h : Grouped cs ds) : Goes ('_' :: cs) ds

theorem Goes.grouped {c : Char} {d : Nat} {cs : List Char} {ds : List Nat}
    (hc : decimalValue? c = some d) (h : Goes cs ds) : Grouped (c :: cs) (d :: ds) := by
  cases h with
  | ends => exact .last hc
  | on h => exact .next hc h
  | apart h => exact .apart hc h

/-- A run that takes in the whole text, from its first digit or from behind a digit. -/
theorem of_digitRun {afterDigit : Bool} {cs : List Char} {ds : List Nat}
    (h : digitRun afterDigit cs = some (ds, [])) :
    if afterDigit then Goes cs ds else Grouped cs ds := by
  induction cs generalizing afterDigit ds with
  | nil =>
    rw [digitRun] at h
    cases afterDigit with
    | false => cases h
    | true =>
      cases h
      exact .ends
  | cons c cs ih =>
    rw [digitRun] at h
    cases hc : decimalValue? c with
    | some d =>
      rw [hc] at h
      obtain ⟨⟨es, rest⟩, hrun, he⟩ := Option.map_eq_some_iff.mp h
      cases he
      have hgoes : Goes cs es := ih hrun
      have hgrouped := hgoes.grouped hc
      split
      · exact .on hgrouped
      · exact hgrouped
    | none =>
      rw [hc] at h
      dsimp only at h
      split at h
      · cases h
      · split at h
        · rename_i hafter hunderscore
          have hgrouped : Grouped cs ds := ih h
          rw [Bool.not_eq_true', Bool.not_eq_false] at hafter
          rw [if_pos hafter, hunderscore]
          exact .apart hgrouped
        · cases h

theorem Grouped.digitRun {cs : List Char} {ds : List Nat} (h : Grouped cs ds) (afterDigit : Bool) :
    digitRun afterDigit cs = some (ds, []) := by
  induction h generalizing afterDigit with
  | last h => simp [Text.digitRun, h]
  | next h _ ih => simp [Text.digitRun, h, ih]
  | apart h _ ih => simp [Text.digitRun, h, ih, decimalValue?_underscore]

theorem digitRun_eq_some_iff {cs : List Char} {ds : List Nat} :
    digitRun false cs = some (ds, []) ↔ Grouped cs ds :=
  ⟨of_digitRun, fun h => h.digitRun false⟩

theorem isBlankPoint_digit : ∀ z ∈ digitZeros, ∀ k < 10, isBlankPoint (z + k) = false := by
  decide +kernel

theorem isBlank_of_decimal {c : Char} {d : Nat} (h : decimalValue? c = some d) :
    isBlank c = false := by
  obtain ⟨z, hz, hd⟩ := List.exists_of_findSome?_eq_some h
  split at hd
  · rename_i hrange
    have hplace := isBlankPoint_digit z hz (c.toNat - z) (by omega)
    rwa [Nat.add_sub_cancel' hrange.1] at hplace
  · cases hd

theorem isPadding_of_not_blank {c : Char} (h : isBlank c = false) : isPadding c = false := by
  rw [isPadding, h, Bool.false_and]

theorem Grouped.ends {cs : List Char} {ds : List Nat} (h : Grouped cs ds) :
    (∀ c ∈ cs.head?, (decimalValue? c).isSome) ∧ ∀ c ∈ cs.getLast?, (decimalValue? c).isSome := by
  induction h with
  | last h => simp [h]
  | @next c d cs ds h hr ih =>
    have hne : cs ≠ [] := by
      rintro rfl
      cases hr
    refine ⟨by simp [h], ?_⟩
    rw [List.getLast?_cons_of_ne_nil hne]
    exact ih.2
  | @apart c d cs ds h hr ih =>
    have hne : cs ≠ [] := by
      rintro rfl
      cases hr
    refine ⟨by simp [h], ?_⟩
    rw [List.getLast?_cons_cons, List.getLast?_cons_of_ne_nil hne]
    exact ih.2

theorem Grouped.ne_nil {cs : List Char} {ds : List Nat} (h : Grouped cs ds) : cs ≠ [] := by
  rintro rfl
  cases h

/-- A numeral with nothing around it neither begins nor ends with a blank. -/
theorem Bare.ends {cs : List Char} {digits : Nat} {n : Int} (h : Bare cs digits n) :
    (∀ c ∈ cs.head?, isBlank c = false) ∧ ∀ c ∈ cs.getLast?, isBlank c = false := by
  obtain ⟨sign, hg⟩ := h
  have hdigit : ∀ c, (decimalValue? c).isSome → isBlank c = false := by
    intro c hc
    obtain ⟨d, hd⟩ := Option.isSome_iff_exists.mp hc
    exact isBlank_of_decimal hd
  obtain ⟨hhead, hlast⟩ := hg.ends
  constructor
  · cases sign with
    | none => exact fun c hc => hdigit c (hhead c hc)
    | plus | minus =>
      rintro c hc
      cases hc
      decide
  · intro c hc
    rw [List.getLast?_append_of_ne_nil _ hg.ne_nil] at hc
    exact hdigit c (hlast c hc)

theorem Grouped.decimal {cs : List Char} {ds : List Nat} (h : Grouped cs ds) :
    ∀ c ∈ cs, c = '_' ∨ decimalValue? c ≠ none := by
  have hdigit : ∀ {c d}, decimalValue? c = some d → decimalValue? c ≠ none := by
    intro c d hc hn
    rw [hc] at hn
    cases hn
  induction h with
  | last hc =>
    intro b hb
    rw [List.mem_singleton.mp hb]
    exact .inr (hdigit hc)
  | next hc _ ih => exact List.forall_mem_cons.mpr ⟨.inr (hdigit hc), ih⟩
  | apart hc _ ih =>
    exact List.forall_mem_cons.mpr ⟨.inr (hdigit hc), List.forall_mem_cons.mpr ⟨.inl rfl, ih⟩⟩

theorem Bare.characters {cs : List Char} {digits : Nat} {n : Int} (h : Bare cs digits n) :
    ∀ c ∈ cs, c = '_' ∨ c = '+' ∨ c = '-' ∨ decimalValue? c ≠ none := by
  obtain ⟨sign, hg⟩ := h
  intro c hc
  rcases List.mem_append.mp hc with hc | hc
  · cases sign with
    | none => cases hc
    | plus => exact .inr (.inl (List.mem_singleton.mp hc))
    | minus => exact .inr (.inr (.inl (List.mem_singleton.mp hc)))
  · rcases hg.decimal c hc with hc | hc
    · exact .inl hc
    · exact .inr (.inr (.inr hc))

variable {p : Char → Bool} {cs : List Char}

theorem trimWhere_split (p : Char → Bool) (cs : List Char) :
    ∃ before after, cs = before ++ trimWhere p cs ++ after ∧ (∀ c ∈ before, p c = true) ∧
      (∀ c ∈ after, p c = true) ∧ (∀ c ∈ (trimWhere p cs).head?, p c = false) ∧
      ∀ c ∈ (trimWhere p cs).getLast?, p c = false := by
  have hhead : ∀ ds : List Char, ∀ c ∈ (ds.dropWhile p).head?, p c = false := by
    intro ds c hc
    have hnot := List.head?_dropWhile_not p ds
    rw [hc] at hnot
    exact hnot
  have hfront : cs.takeWhile p ++ cs.dropWhile p = cs := List.takeWhile_append_dropWhile
  have hback := congrArg List.reverse
    (List.takeWhile_append_dropWhile (p := p) (l := (cs.dropWhile p).reverse))
  rw [List.reverse_append, List.reverse_reverse] at hback
  refine ⟨cs.takeWhile p, ((cs.dropWhile p).reverse.takeWhile p).reverse, ?_, ?_, ?_, ?_, ?_⟩
  · rw [trimWhere, List.append_assoc, hback, hfront]
  · exact fun c hc => List.mem_takeWhile_imp hc
  · exact fun c hc => List.mem_takeWhile_imp (List.mem_reverse.mp hc)
  · intro c hc
    refine hhead cs c ?_
    rw [trimWhere] at hc
    rw [← hback, List.head?_append, hc]
    rfl
  · intro c hc
    rw [trimWhere, List.getLast?_reverse] at hc
    exact hhead _ c hc

/-- A text is a numeral if what is left of it without the blanks around it is one. -/
theorem numeral_iff_trim {digits : Nat} {n : Int} :
    Numeral cs digits n ↔ Bare (trim cs) digits n := by
  constructor
  · rintro ⟨hb, ha, h⟩
    obtain ⟨hhead, hlast⟩ := h.ends
    rwa [trim, trimWhere_append hb ha hhead hlast]
  · intro h
    obtain ⟨before, after, hcs, hb, ha, -, -⟩ := trimWhere_split isBlank cs
    rw [hcs]
    exact .mk hb ha h

theorem signed_chars (sign : Sign) {body : List Char} {ds : List Nat} (h : Grouped body ds) :
    signed (sign.chars ++ body) = (decide (sign = .minus), body) := by
  cases sign with
  | plus | minus => rfl
  | none =>
    cases h with
    | last h | next h | apart h =>
      refine signed_of_ne ?_ ?_ _ <;>
      · rintro rfl
        cases h

theorem signed_split (cs : List Char) :
    ∃ sign : Sign, cs = sign.chars ++ (signed cs).2 ∧ (signed cs).1 = decide (sign = .minus) := by
  rw [signed.eq_def]
  split
  · exact ⟨.minus, rfl, rfl⟩
  · exact ⟨.plus, rfl, rfl⟩
  · exact ⟨.none, rfl, rfl⟩

theorem readInteger_of_bare {digits : Nat} {n : Int} (h : Bare cs digits n) :
    readInteger cs = if digitLimit < digits then .error (.numeralTooLong digits) else .ok n := by
  have htrim : trimWhere isPadding cs = cs :=
    trimWhere_of_ends (fun c hc => isPadding_of_not_blank (h.ends.1 c hc))
      fun c hc => isPadding_of_not_blank (h.ends.2 c hc)
  rw [readInteger, htrim]
  obtain ⟨sign, hg⟩ := h
  rw [signed_chars sign hg]
  dsimp only
  rw [hg.digitRun]
  cases sign <;> rfl

theorem bare_of_readInteger {n : Int} (h : readInteger cs = .ok n) :
    ∃ digits ≤ digitLimit, Bare (trimWhere isPadding cs) digits n := by
  obtain ⟨sign, hcore, hminus⟩ := signed_split (trimWhere isPadding cs)
  rw [readInteger] at h
  generalize signed (trimWhere isPadding cs) = parts at h hcore hminus
  obtain ⟨negative, body⟩ := parts
  dsimp only at h hcore hminus
  cases hrun : digitRun false body with
  | none =>
    rw [hrun] at h
    cases h
  | some found =>
    obtain ⟨ds, rest⟩ := found
    rw [hrun] at h
    dsimp only at h
    split at h
    · cases h
    · rename_i hlimit
      split at h
      · cases h
      · rename_i hrest
        rw [not_not.mp hrest] at hrun
        have hbare := Bare.mk sign (digitRun_eq_some_iff.mp hrun)
        rw [hminus] at h
        cases h
        refine ⟨ds.length, Nat.not_lt.mp hlimit, ?_⟩
        rw [hcore]
        cases sign <;> exact hbare

/-- Nothing that is left of a text without the blanks around it is padding. -/
theorem trimWhere_isPadding_trim (cs : List Char) : trimWhere isPadding (trim cs) = trim cs := by
  obtain ⟨-, -, -, -, -, hhead, hlast⟩ := trimWhere_split isBlank cs
  exact trimWhere_of_ends (fun c hc => isPadding_of_not_blank (hhead c hc))
    fun c hc => isPadding_of_not_blank (hlast c hc)

/-- Without the blanks around it a text is read exactly if it is a numeral with no more digits
than there may be. -/
theorem readInteger_trim_eq_ok_iff {n : Int} :
    readInteger (trim cs) = .ok n ↔ ∃ digits ≤ digitLimit, Numeral cs digits n := by
  simp only [numeral_iff_trim]
  constructor
  · intro h
    obtain ⟨digits, hle, hbare⟩ := bare_of_readInteger h
    rw [trimWhere_isPadding_trim] at hbare
    exact ⟨digits, hle, hbare⟩
  · rintro ⟨digits, hle, hbare⟩
    rw [readInteger_of_bare hbare, if_neg (Nat.not_lt.mpr hle)]

theorem refuses_of_readInteger {f : Fault} (h : readInteger cs = .error f) : f.Refuses := by
  rw [readInteger] at h
  generalize signed (trimWhere isPadding cs) = parts at h
  obtain ⟨negative, body⟩ := parts
  dsimp only at h
  split at h
  · cases h
    exact .notAnInteger _
  · split at h
    · cases h
      exact .numeralTooLong _
    · split at h
      · cases h
        exact .notAnInteger _
      · cases h

open Decimal

theorem grouped_figures {ds : List Nat} (hne : ds ≠ []) (h : Decimals ds) :
    Grouped (figures ds) ds := by
  induction ds with
  | nil => exact absurd rfl hne
  | cons d ds ih =>
    obtain ⟨hd, hds⟩ := List.forall_mem_cons.mp h
    cases ds with
    | nil => exact .last (decimalValue?_digitChar hd)
    | cons e ds => exact .next (decimalValue?_digitChar hd) (ih (List.cons_ne_nil _ _) hds)

theorem bare_digitsOf (sign : Sign) (n : Nat) :
    Bare (sign.chars ++ digitsOf n) (size n) (sign.of n) := by
  obtain ⟨ds, hds, hne, hd, hv⟩ := digitsOf_figures n
  have hbare := Bare.mk sign (grouped_figures hne hd)
  rwa [hv, ← hds, ← length_figures, ← hds, ← size_eq] at hbare

theorem bare_toString (n : Int) : Bare (toString n).toList (size n.natAbs) n := by
  cases n with
  | ofNat n =>
    have hbare := bare_digitsOf .none n
    have hdigits : (toString (Int.ofNat n)).toList = digitsOf n := by
      change (String.ofList (Nat.toDigits 10 n)).toList = _
      rw [String.toList_ofList]
      rfl
    rw [hdigits]
    exact hbare
  | negSucc n =>
    have hbare := bare_digitsOf .minus (n + 1)
    have hdigits : (toString (Int.negSucc n)).toList = '-' :: digitsOf (n + 1) := by
      change ("-" ++ String.ofList (Nat.toDigits 10 (n + 1))).toList = _
      simp only [String.toList_append, String.toList_ofList]
      rfl
    rw [hdigits]
    exact hbare

theorem bare_plus_toString {n : Int} (h : 0 ≤ n) :
    Bare ('+' :: (toString n).toList) (size n.natAbs) n := by
  obtain ⟨n, rfl⟩ := Int.eq_ofNat_of_zero_le h
  have hbare := bare_digitsOf .plus n
  have hdigits : (toString (n : Int)).toList = digitsOf n := by
    change (String.ofList (Nat.toDigits 10 n)).toList = _
    rw [String.toList_ofList]
    rfl
  rw [hdigits]
  exact hbare

end Text

end TrafficIndicator
