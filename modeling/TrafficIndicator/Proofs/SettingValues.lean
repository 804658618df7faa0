import TrafficIndicator.Proofs.IntegerNumerals
import TrafficIndicator.Proofs.WorkingPrecision
import TrafficIndicator.Settings

/-!
Any value may be given for a setting. It is written out and read as an integer, and whatever
cannot be written or read means the default, so that a setting only fails on a value that is
nested too deep to be written. Read so, an integer means the same as its decimal form with blanks
around it.
-/
namespace TrafficIndicator

namespace Text

def isAlien (c : Char) : Bool :=
  !isBlank c && !(c = '_' || c = '+' || c = '-') && (decimalValue? c).isNone

theorem Bare.not_alien {cs : List Char} {digits : Nat} {n : Int} (h : Bare cs digits n) {c : Char}
    (hc : c ∈ cs) : isAlien c = false := by
  rcases h.characters c hc with rfl | rfl | rfl | hdecimal
  · rfl
  · rfl
  · rfl
  · rw [isAlien, Option.isNone_eq_false_iff.mpr (Option.isSome_iff_ne_none.mpr hdecimal),
      Bool.and_false]

theorem not_numeral_of_alien {cs : List Char} {digits : Nat} {n : Int} {c : Char} (hc : c ∈ cs)
    (h : isAlien c = true) : ¬Numeral cs digits n := by
  have hblank : isBlank c = false := by
    simp only [isAlien, Bool.and_eq_true, Bool.not_eq_true'] at h
    exact h.1.1
  rintro ⟨hb, ha, hbare⟩
  rcases List.mem_append.mp hc with hc | hc
  · rcases List.mem_append.mp hc with hc | hc
    · rw [hb c hc] at hblank
      cases hblank
    · rw [hbare.not_alien hc] at h
      cases h
  · rw [ha c hc] at hblank
    cases hblank

theorem isAlien_letter : ∀ k < 128, 65 ≤ k → k ≤ 90 ∨ 97 ≤ k ∧ k ≤ 122 →
    isAlien (Char.ofNat k) = true := by
  decide +kernel

theorem isAlien_of_lower {c : Char} (h : 97 ≤ c.toLower.toNat) (h' : c.toLower.toNat ≤ 122) :
    isAlien c = true := by
  have hrange : 65 ≤ c.toNat ∧ (c.toNat ≤ 90 ∨ 97 ≤ c.toNat ∧ c.toNat ≤ 122) := by
    by_cases hcapital : 'A'.val ≤ c.val ∧ c.val ≤ 'Z'.val
    · rw [UInt32.le_iff_toNat_le, UInt32.le_iff_toNat_le] at hcapital
      change 65 ≤ c.toNat ∧ c.toNat ≤ 90 at hcapital
      omega
    · have hsame : c.toLower = c := dif_neg hcapital
      rw [hsame] at h h'
      omega
  have hletter := isAlien_letter c.toNat (by omega) hrange.1 hrange.2
  rwa [Char.ofNat_toNat] at hletter

end Text

theorem Fault.Refuses.isRefusal {f : Fault} (h : f.Refuses) : f.isRefusal = true := by
  cases h <;> rfl

namespace Value

open Text

/-- The integer that a setting means: an integer within the digit limit, a numeral with blanks
around it, or a truth value as 0 or 1. -/
def integerOr (v : Value) (default : Int) : Int :=
  match v with
  | .bool b => if b then 1 else 0
  | .int n => if withinDigitLimit n then n else default
  | .text (.chars s) =>
    match readInteger (trim s.toList) with
    | .ok n => n
    | .error _ => default
  | _ => default

def switchOr (v : Value) (default : Bool) : Bool :=
  let byInteger := v.integerOr (if default then 1 else 0) ≠ 0
  match v with
  | .text (.chars s) => (switchWord? s).getD byInteger
  | _ => byInteger

def isText : Value → Bool
  | .text _ => true
  | _ => false

mutual

/-- How many lists and mappings lie in one another in a value. -/
def depth : Value → Nat
  | .list items => depthOfItems items + 1
  | .dict entries => depthOfEntries entries + 1
  | _ => 0

def depthOfItems : List Value → Nat
  | [] => 0
  | v :: vs => max v.depth (depthOfItems vs)

def depthOfEntries : List (LooseText × Value) → Nat
  | [] => 0
  | (_, v) :: es => max v.depth (depthOfEntries es)

end

def fits (limit : Option Nat) (v : Value) : Bool := !exceeds limit v.depth

/-- What fails does so because an integer cannot be written or read, or because a depth is over
the limit. -/
def FailsWithin {α : Type} (limit : Option Nat) (depth : Nat) (r : Except Fault α) : Prop :=
  ∀ f, r = .error f → f.Refuses ∨ (f = .tooDeep ∧ exceeds limit depth = true)

variable {limit : Option Nat} {depth d : Nat}

theorem exceeds_mono {m n : Nat} (h : exceeds limit m = true) (hmn : m ≤ n) :
    exceeds limit n = true := by
  cases limit with
  | none => cases h
  | some k =>
    have hk : k < m := of_decide_eq_true h
    exact decide_eq_true (by omega)

theorem failsWithin_ok {α : Type} (a : α) : FailsWithin limit d (.ok a) := nofun

theorem FailsWithin.mono {α : Type} {r : Except Fault α} {n : Nat} (h : FailsWithin limit d r)
    (hn : d ≤ n) : FailsWithin limit n r :=
  fun f hf => (h f hf).imp_right fun ⟨hdeep, hlimit⟩ => ⟨hdeep, exceeds_mono hlimit hn⟩

theorem FailsWithin.bind {α β : Type} {r : Except Fault α} {g : α → Except Fault β}
    (h : FailsWithin limit d r) (hg : ∀ a, FailsWithin limit d (g a)) :
    FailsWithin limit d (r >>= g) := by
  intro f hf
  cases r with
  | error e =>
    cases hf
    exact h _ rfl
  | ok a => exact hg a f hf

theorem FailsWithin.map {α β : Type} {r : Except Fault α} (h : FailsWithin limit d r)
    (g : α → β) : FailsWithin limit d (r.map g) := by
  intro f hf
  cases r with
  | error e =>
    cases hf
    exact h _ rfl
  | ok a => cases hf

theorem failsWithin_writtenInteger (n : Int) : FailsWithin limit d (writtenInteger n) := by
  intro f hf
  rw [writtenInteger] at hf
  split at hf
  · cases hf
  · cases hf
    exact .inl (.numeralTooLong _)

/-- A list or mapping fails where it is over the limit itself, or where a part of it fails. -/
theorem FailsWithin.nested {α : Type} {r : Except Fault α} {inner : Nat}
    (h : FailsWithin limit (depth + 1 + inner) r) :
    FailsWithin limit (depth + (inner + 1))
      (if exceeds limit (depth + 1) then .error .tooDeep else r) := by
  intro f hf
  split at hf
  · rename_i hlimit
    cases hf
    exact .inr ⟨rfl, exceeds_mono hlimit (by omega)⟩
  · exact h.mono (by omega) f hf

mutual

theorem failsWithin_quoted (depth : Nat) :
    (v : Value) → FailsWithin limit (depth + v.depth) (quoted limit depth v)
  | .null | .bool _ | .float _ | .undefined _ | .text _ => failsWithin_ok _
  | .int n => failsWithin_writtenInteger n
  | .list items => ((failsWithin_quotedItems (depth + 1) items).map _).nested
  | .dict entries => ((failsWithin_quotedEntries (depth + 1) entries).map _).nested

theorem failsWithin_quotedItems (depth : Nat) :
    (vs : List Value) → FailsWithin limit (depth + depthOfItems vs) (quotedItems limit depth vs)
  | [] => failsWithin_ok _
  | v :: vs =>
    ((failsWithin_quoted depth v).mono (Nat.add_le_add_left (Nat.le_max_left ..) _)).bind fun _ =>
      ((failsWithin_quotedItems depth vs).mono
        (Nat.add_le_add_left (Nat.le_max_right ..) _)).bind fun _ => failsWithin_ok _

theorem failsWithin_quotedEntries (depth : Nat) : (es : List (LooseText × Value)) →
    FailsWithin limit (depth + depthOfEntries es) (quotedEntries limit depth es)
  | [] => failsWithin_ok _
  | (_, v) :: es =>
    ((failsWithin_quoted depth v).mono (Nat.add_le_add_left (Nat.le_max_left ..) _)).bind fun _ =>
      ((failsWithin_quotedEntries depth es).mono
        (Nat.add_le_add_left (Nat.le_max_right ..) _)).bind fun _ => failsWithin_ok _

end

theorem written_of_not_text {v : Value} (h : v.isText = false) :
    v.written limit = (quoted limit 0 v).map .ofList := by
  rw [written.eq_def]
  split
  · cases h
  · rfl

theorem failsWithin_written (v : Value) : FailsWithin limit v.depth (v.written limit) := by
  cases h : v.isText with
  | true =>
    cases v with
    | text t => exact failsWithin_ok t
    | _ => cases h
  | false =>
    rw [written_of_not_text h]
    exact ((failsWithin_quoted 0 v).mono (by omega)).map _

theorem failsWithin_readTrimmed (t : LooseText) : FailsWithin limit d (readTrimmed t) := by
  intro f hf
  rw [readTrimmed] at hf
  split at hf
  · cases hf
    exact .inl (.notAnInteger t)
  · exact .inl (refuses_of_readInteger hf)

/-- The integer that a value denotes: a truth value, an integer that may be written, or a text
that is a numeral between blanks. -/
inductive Denotes : Value → Int → Prop where
  | bool (b : Bool) : Denotes (.bool b) (if b then 1 else 0)
  | int {n : Int} (h : Decimal.size n.natAbs ≤ digitLimit) : Denotes (.int n) n
  | text {s : String} {digits : Nat} {n : Int} (hl : digits ≤ digitLimit)
      (h : Numeral s.toList digits n) : Denotes (.text (.chars s)) n

theorem readTrimmed_ofList (cs : List Char) : readTrimmed (.ofList cs) = readInteger (trim cs) := by
  rw [readTrimmed, LooseText.ofList, LooseText.chars?, String.toList_ofList]

theorem readTrimmed_of_alien {cs : List Char} {c : Char} (hc : c ∈ cs) (h : isAlien c = true)
    (n : Int) : readTrimmed (.ofList cs) ≠ .ok n := by
  intro hread
  rw [readTrimmed_ofList] at hread
  obtain ⟨digits, -, hnumeral⟩ := readInteger_trim_eq_ok_iff.mp hread
  exact not_numeral_of_alien hc h hnumeral

theorem isAlien_of_foreign {c : Char} (h : Binary64.isForeign c = true) : isAlien c = true := by
  simp only [Binary64.isForeign, Bool.or_eq_true, decide_eq_true_eq] at h
  rcases h with (rfl | rfl) | rfl <;> decide +kernel

theorem read_iff_of_alien {v : Value} {n : Int} (ht : v.isText = false)
    (h : ∀ cs, quoted limit 0 v = .ok cs → ∃ c ∈ cs, isAlien c = true) (hd : ¬v.Denotes n) :
    (v.written limit).bind readTrimmed = .ok n ↔ v.Denotes n := by
  refine iff_of_false ?_ hd
  rw [written_of_not_text ht]
  cases hq : quoted limit 0 v with
  | error f => nofun
  | ok cs =>
    obtain ⟨c, hc, halien⟩ := h cs hq
    rw [Except.map, Except.bind]
    exact readTrimmed_of_alien hc halien n

theorem alien_of_float (x : Binary64) : ∃ c ∈ x.written, isAlien c = true := by
  obtain ⟨c, hc, hforeign⟩ := x.exists_foreign_written
  exact ⟨c, hc, isAlien_of_foreign hforeign⟩

theorem alien_of_head {c : Char} (h : isAlien c = true) {r : Except Fault (List (List Char))}
    {g : List (List Char) → List Char} {tooDeep : Bool} {cs : List Char}
    (hr : (if tooDeep then .error .tooDeep else r.map fun texts => c :: g texts) = .ok cs) :
    ∃ c ∈ cs, isAlien c = true := by
  split at hr
  · cases hr
  · cases r with
    | error f => cases hr
    | ok texts =>
      cases hr
      exact ⟨c, List.mem_cons_self, h⟩

theorem withinDigitLimit_iff {n : Int} :
    withinDigitLimit n = true ↔ Decimal.size n.natAbs ≤ digitLimit := by
  have hpos : 0 < digitLimit := by decide
  rw [Decimal.size_le_iff hpos, withinDigitLimit, decide_eq_true_eq, Nat.pow_eq]

theorem read_toString {n : Int} (h : Decimal.size n.natAbs ≤ digitLimit) :
    readTrimmed (.ofList (toString n).toList) = .ok n := by
  rw [readTrimmed_ofList]
  exact readInteger_trim_eq_ok_iff.mpr ⟨_, h, (bare_toString n).numeral⟩

theorem read_written_int {m n : Int} :
    ((Value.int m).written limit).bind readTrimmed = .ok n ↔ (Value.int m).Denotes n := by
  rw [written_of_not_text rfl, quoted, writtenInteger]
  by_cases hm : withinDigitLimit m = true
  · have hread := read_toString (withinDigitLimit_iff.mp hm)
    rw [if_pos hm, Except.map, Except.bind, hread]
    constructor
    · intro h
      cases h
      exact .int (withinDigitLimit_iff.mp hm)
    · rintro ⟨⟩
      rfl
  · rw [if_neg hm]
    refine iff_of_false nofun ?_
    rintro (_ | h)
    exact hm (withinDigitLimit_iff.mpr h)

/-- A value other than a truth value is read, from what it is written as, as the integer that it
denotes. -/
theorem read_written_iff {v : Value} {n : Int} (hv : ∀ b, v ≠ .bool b) :
    (v.written limit).bind readTrimmed = .ok n ↔ v.Denotes n := by
  cases v with
  | bool b => exact absurd rfl (hv b)
  | int m => exact read_written_int
  | text t =>
    cases t with
    | points ps => exact iff_of_false nofun nofun
    | chars s =>
      have hread : ((Value.text (.chars s)).written limit).bind readTrimmed =
          readInteger (trim s.toList) := by
        rw [written, Except.bind, readTrimmed, LooseText.chars?]
      rw [hread, readInteger_trim_eq_ok_iff]
      constructor
      · rintro ⟨digits, hl, h⟩
        exact .text hl h
      · rintro ⟨⟩
        exact ⟨_, ‹_›, ‹_›⟩
  | null =>
    refine read_iff_of_alien rfl (fun cs hcs => ?_) nofun
    cases hcs
    exact ⟨'N', by decide, by decide +kernel⟩
  | float x =>
    refine read_iff_of_alien rfl (fun cs hcs => ?_) nofun
    cases hcs
    exact alien_of_float x
  | undefined mark =>
    refine read_iff_of_alien rfl (fun cs hcs => ?_) nofun
    cases hcs
    exact alien_of_float .nan
  | list items =>
    exact read_iff_of_alien rfl (fun cs hcs => alien_of_head (by decide +kernel) hcs) nofun
  | dict entries =>
    exact read_iff_of_alien rfl (fun cs hcs => alien_of_head (by decide +kernel) hcs) nofun

theorem integerOr_of_denotes {v : Value} {n : Int} (h : v.Denotes n) (default : Int) :
    v.integerOr default = n := by
  cases h with
  | bool b => rfl
  | int h => rw [integerOr, if_pos (withinDigitLimit_iff.mpr h)]
  | text hl h => rw [integerOr, readInteger_trim_eq_ok_iff.mpr ⟨_, hl, h⟩]

theorem integerOr_of_not_denotes {v : Value} (h : ∀ n, ¬v.Denotes n) (default : Int) :
    v.integerOr default = default := by
  cases v with
  | bool b => exact absurd (.bool b) (h _)
  | int n => rw [integerOr, if_neg fun hn => h n (.int (withinDigitLimit_iff.mp hn))]
  | text t =>
    cases t with
    | points ps => rfl
    | chars s =>
      rw [integerOr]
      cases hread : readInteger (trim s.toList) with
      | error f => rfl
      | ok n =>
        obtain ⟨digits, hl, hnumeral⟩ := readInteger_trim_eq_ok_iff.mp hread
        exact absurd (.text hl hnumeral) (h n)
  | _ => rfl

/-- The way through what a value is written as comes to the integer that the value denotes or the
default. It only fails on a value that is over the limit. -/
theorem parseInteger_eq (v : Value) (limit : Option Nat) (default : Int) :
    v.parseInteger limit default = .ok (v.integerOr default) ∨
      (v.parseInteger limit default = .error .tooDeep ∧ v.fits limit = false) := by
  by_cases hnull : v = .null
  · rw [hnull]
    exact .inl rfl
  by_cases hbool : ∃ b, v = .bool b
  · obtain ⟨b, rfl⟩ := hbool
    exact .inl rfl
  have hiff : ∀ n, (v.written limit).bind readTrimmed = .ok n ↔ v.Denotes n :=
    fun n => read_written_iff fun b hb => hbool ⟨b, hb⟩
  rw [parseInteger.eq_def]
  split
  · contradiction
  · rename_i b
    exact absurd ⟨b, rfl⟩ hbool
  cases hread : (v.written limit).bind readTrimmed with
  | ok n =>
    left
    rw [integerOr_of_denotes ((hiff n).mp hread)]
  | error f =>
    have hnone : ∀ n, ¬v.Denotes n := by
      intro n hn
      rw [(hiff n).mpr hn] at hread
      cases hread
    rcases (failsWithin_written v).bind failsWithin_readTrimmed f hread with
      hrefused | ⟨rfl, hlimit⟩
    · left
      dsimp only
      rw [if_pos hrefused.isRefusal, integerOr_of_not_denotes hnone]
    · refine .inr ⟨rfl, ?_⟩
      rw [fits, hlimit]
      rfl

theorem parseSwitch_eq (v : Value) (limit : Option Nat) (default : Bool) :
    v.parseSwitch limit default = .ok (v.switchOr default) ∨
      (v.parseSwitch limit default = .error .tooDeep ∧ v.fits limit = false) := by
  rw [parseSwitch.eq_def, switchOr.eq_def]
  rcases v.parseInteger_eq limit (if default then 1 else 0) with h | ⟨h, hlimit⟩
  · left
    rw [h]
    cases v with
    | text t =>
      cases t with
      | points ps => rfl
      | chars s =>
        generalize (Value.text (.chars s)).integerOr (if default then 1 else 0) = n
        dsimp only
        cases switchWord? s <;> rfl
    | _ => rfl
  · right
    rw [h]
    refine ⟨?_, hlimit⟩
    cases v with
    | text t =>
      -- no text is over the limit
      have hfits : (Value.text t).fits limit = true := by
        cases limit <;> rfl
      rw [hfits] at hlimit
      cases hlimit
    | _ => rfl

/-- A text that spells a switch out, in any case and between blanks. -/
inductive Spells : Value → Bool → Prop where
  | mk {s : String} {b : Bool}
      (h : (trim s.toList).map Char.toLower = (if b then "true" else "false").toList) :
      Spells (.text (.chars s)) b

theorem switchWord?_eq_some {s : String} {b : Bool} :
    switchWord? s = some b ↔ Spells (.text (.chars s)) b := by
  rw [switchWord?]
  constructor
  · intro h
    split at h
    · cases h
      exact .mk ‹_›
    · split at h
      · cases h
        exact .mk ‹_›
      · cases h
  · rintro ⟨h⟩
    rw [h]
    cases b <;> decide

theorem Spells.not_denotes {v : Value} {b : Bool} (h : v.Spells b) (n : Int) : ¬v.Denotes n := by
  obtain ⟨h⟩ := h
  rintro (_ | _ | ⟨-, hnumeral⟩)
  -- both words have an e
  have hword : 'e' ∈ (if b then "true" else "false").toList := by cases b <;> decide
  rw [← h] at hword
  obtain ⟨c, hc, hlower⟩ := List.mem_map.mp hword
  have halien : isAlien c = true := by
    apply isAlien_of_lower <;>
    · rw [hlower]
      decide
  rw [(numeral_iff_trim.mp hnumeral).not_alien hc] at halien
  cases halien

theorem switchOr_of_not_spells {v : Value} (h : ∀ b, ¬v.Spells b) :
    v.switchOr false = decide (v.integerOr 0 ≠ 0) := by
  cases v with
  | text t =>
    cases t with
    | points ps => rfl
    | chars s =>
      rw [switchOr]
      cases hword : switchWord? s with
      | none => rw [Option.getD_none, if_neg Bool.false_ne_true]
      | some b => exact absurd (switchWord?_eq_some.mp hword) (h b)
  | _ => rfl

end Value

namespace SettingKey

open Value

theorem name_injective {a b : SettingKey} (h : a.name = b.name) : a = b := by
  revert h
  cases a <;> cases b <;> decide

theorem ofText?_eq_some {t : LooseText} {key : SettingKey} :
    ofText? t = some key ↔ t = .chars key.name := by
  constructor
  · intro h
    rw [ofText?] at h
    have hfound := List.find?_some h
    exact of_decide_eq_true hfound
  · rintro rfl
    cases key <;> decide

def reads (key : SettingKey) (v : Value) : Bool :=
  match key with
  | .unit => v.integerOr 0 ≠ 0
  | _ => v.switchOr false

variable {v : Value}

theorem reads_of_denotes {n : Int} (h : v.Denotes n) (k : SettingKey) :
    k.reads v = decide (n ≠ 0) := by
  have hswitch : v.switchOr false = decide (n ≠ 0) := by
    rw [switchOr_of_not_spells fun b hb => hb.not_denotes n h, integerOr_of_denotes h]
  cases k with
  | unit => rw [reads, integerOr_of_denotes h]
  | _ => exact hswitch

theorem reads_of_spells {b : Bool} (h : v.Spells b) {k : SettingKey} (hk : k ≠ .unit) :
    k.reads v = b := by
  have hswitch : v.switchOr false = b := by
    cases v with
    | text t =>
      cases t with
      | points ps => cases h
      | chars s =>
        rw [switchOr, switchWord?_eq_some.mpr h]
        rfl
    | _ => cases h
  cases k with
  | unit => exact absurd rfl hk
  | _ => exact hswitch

theorem reads_of_neither {k : SettingKey} (hn : ∀ n, ¬v.Denotes n)
    (hs : k ≠ .unit → ∀ b, ¬v.Spells b) : k.reads v = false := by
  have hswitch : (∀ b, ¬v.Spells b) → v.switchOr false = false := by
    intro hspells
    rw [switchOr_of_not_spells hspells, integerOr_of_not_denotes hn]
    rfl
  cases k with
  | unit =>
    rw [reads, integerOr_of_not_denotes hn]
    rfl
  | enabled => exact hswitch (hs (by decide))
  | autoHide => exact hswitch (hs (by decide))

theorem reads_iff (k : SettingKey) (v : Value) :
    k.reads v = true ↔ (∃ n, n ≠ 0 ∧ v.Denotes n) ∨ (k ≠ .unit ∧ v.Spells true) := by
  constructor
  · intro h
    by_cases hn : ∃ n, v.Denotes n
    · obtain ⟨n, hn⟩ := hn
      rw [reads_of_denotes hn] at h
      exact .inl ⟨n, of_decide_eq_true h, hn⟩
    by_cases hs : k ≠ .unit ∧ ∃ b, v.Spells b
    · obtain ⟨hk, b, hb⟩ := hs
      rw [reads_of_spells hb hk] at h
      exact .inr ⟨hk, h ▸ hb⟩
    rw [reads_of_neither (not_exists.mp hn) fun hk b hb => hs ⟨hk, b, hb⟩] at h
    cases h
  · rintro (⟨n, hn, h⟩ | ⟨hk, h⟩)
    · rw [reads_of_denotes h]
      exact decide_eq_true hn
    · exact reads_of_spells h hk

end SettingKey

namespace Settings

def set (s : Settings) (key : SettingKey) (v : Value) : Settings :=
  match key with
  | .enabled => { s with enabled := v.switchOr false }
  | .autoHide => { s with autoHide := v.switchOr false }
  | .unit => { s with unit := if v.integerOr 0 = 0 then .bytes else .bits }

def update? (s : Settings) (key : LooseText) (v : Value) : Option Settings :=
  (SettingKey.ofText? key).map fun k => s.set k v

def update (s : Settings) (key : LooseText) (v : Value) : Settings :=
  (s.update? key v).getD s

def get (s : Settings) : SettingKey → Bool
  | .enabled => s.enabled
  | .autoHide => s.autoHide
  | .unit => s.unit = .bits

theorem get_ext {s t : Settings} : s = t ↔ ∀ key, s.get key = t.get key := by
  obtain ⟨e, a, u⟩ := s
  obtain ⟨e', a', u'⟩ := t
  constructor
  · rintro h key
    rw [h]
  · intro h
    have he : e = e' := h .enabled
    have ha : a = a' := h .autoHide
    have hu : decide (u = .bits) = decide (u' = .bits) := h .unit
    subst he ha
    cases u <;> cases u' <;> first | rfl | cases hu

theorem get_update (s : Settings) (t : LooseText) (v : Value) (key : SettingKey) :
    (s.update t v).get key = if t = .chars key.name then key.reads v else s.get key := by
  rw [update, update?]
  cases ho : SettingKey.ofText? t with
  | none =>
    rw [if_neg]
    · rfl
    · intro ht
      rw [SettingKey.ofText?_eq_some.mpr ht] at ho
      cases ho
  | some k =>
    have ht := SettingKey.ofText?_eq_some.mp ho
    by_cases hk : k = key
    · subst hk
      rw [if_pos ht]
      cases k <;> simp [set, get, SettingKey.reads]
    · rw [if_neg]
      · cases k <;> cases key <;> first | rfl | exact absurd rfl hk
      · intro htk
        exact hk (SettingKey.name_injective (LooseText.chars.inj (ht.symm.trans htk)))

variable {limit : Option Nat}

/-- Applying a value by way of what it is written as only fails on a value of a known key that is
over the limit. -/
theorem apply_eq (s : Settings) (limit : Option Nat) (key : LooseText) (v : Value) :
    s.apply limit key v = .ok (s.update? key v) ∨
      (s.apply limit key v = .error .tooDeep ∧ v.fits limit = false ∧
        (s.update? key v).isSome = true) := by
  rw [apply, update?]
  cases SettingKey.ofText? key with
  | none => exact .inl rfl
  | some k =>
    cases k with
    | enabled | autoHide =>
      rcases v.parseSwitch_eq limit false with h | ⟨h, hlimit⟩
      · left
        dsimp only
        rw [h]
        rfl
      · right
        dsimp only
        rw [h]
        exact ⟨rfl, hlimit, rfl⟩
    | unit =>
      rcases v.parseInteger_eq limit 0 with h | ⟨h, hlimit⟩
      · left
        dsimp only
        rw [h]
        rfl
      · right
        dsimp only
        rw [h]
        exact ⟨rfl, hlimit, rfl⟩

theorem update?_of_apply {s : Settings} {key : LooseText} {v : Value} {o : Option Settings}
    (h : s.apply limit key v = .ok o) : o = s.update? key v := by
  rcases s.apply_eq limit key v with hok | ⟨hfail, -⟩
  · rw [h] at hok
    cases hok
    rfl
  · rw [h] at hfail
    cases hfail

/-- A keyed value that is nested within the limit never fails. A value is recognised by its key
alone, and makes of the field of its key what it means, whatever the settings were; all other
fields stay. -/
structure Applied (limit : Option Nat) (s : Settings) (key : LooseText) (v : Value) : Prop where
  total : v.fits limit = true → s.apply limit key v = .ok (s.update? key v)
  recognised : (s.update? key v).isSome = true ↔ ∃ k : SettingKey, key = .chars k.name
  fields : ∀ k : SettingKey,
    (s.update key v).get k = if key = .chars k.name then k.reads v else s.get k

theorem applied (limit : Option Nat) (s : Settings) (key : LooseText) (v : Value) :
    s.Applied limit key v where
  total hfits := by
    rcases s.apply_eq limit key v with h | ⟨-, hlimit, -⟩
    · exact h
    · rw [hfits] at hlimit
      cases hlimit
  recognised := by
    rw [update?, Option.isSome_map, Option.isSome_iff_exists]
    simp only [SettingKey.ofText?_eq_some]
  fields k := s.get_update key v k

end Settings

namespace Value

open Text

/-- An integer may be given as itself, or as its decimal form between blanks; a plus sign may
stand before it. -/
inductive IsForm (n : Int) : Value → Prop where
  | int : IsForm n (.int n)
  | text {before after : List Char} (hb : ∀ c ∈ before, isBlank c = true)
      (ha : ∀ c ∈ after, isBlank c = true) :
      IsForm n (.text (.ofList (before ++ (toString n).toList ++ after)))
  | plus {before after : List Char} (hb : ∀ c ∈ before, isBlank c = true)
      (ha : ∀ c ∈ after, isBlank c = true) (hn : 0 ≤ n) :
      IsForm n (.text (.ofList (before ++ '+' :: (toString n).toList ++ after)))

theorem IsForm.denotes {n : Int} {v : Value} (h : IsForm n v)
    (hn : Decimal.size n.natAbs ≤ digitLimit) : v.Denotes n := by
  cases h with
  | int => exact .int hn
  | text hb ha =>
    refine .text hn ?_
    rw [String.toList_ofList]
    exact .mk hb ha (bare_toString n)
  | plus hb ha hpos =>
    refine .text hn ?_
    rw [String.toList_ofList]
    exact .mk hb ha (bare_plus_toString hpos)

end Value

namespace Settings

/-- What the values of settings come to. Any value that is nested within the limit may be given for
any key; a field is on if the value denotes an integer other than 0 or, unless it is the unit,
spells "true"; and all forms of an integer are the same to each setting. -/
theorem values_applied :
    (∀ (limit : Option Nat) (s : Settings) (key : LooseText) (v : Value), s.Applied limit key v) ∧
    (∀ (k : SettingKey) (v : Value),
      k.reads v = true ↔ (∃ n, n ≠ 0 ∧ v.Denotes n) ∨ (k ≠ .unit ∧ v.Spells true)) ∧
    (∀ (n : Int) (v : Value), Decimal.size n.natAbs ≤ digitLimit → Value.IsForm n v →
      (∀ k : SettingKey, k.reads v = decide (n ≠ 0)) ∧
        ∀ (s : Settings) (key : LooseText), s.update key v = s.update key (.int n)) ∧
    ∀ k : SettingKey, k.reads .null = false ∧ (∀ x, k.reads (.float x) = false) ∧
      ∀ mark, k.reads (.undefined mark) = false := by
  refine ⟨applied, SettingKey.reads_iff, fun n v hn hv => ?_,
    fun k => ⟨?_, fun x => ?_, fun mark => ?_⟩⟩
  · have hreads := SettingKey.reads_of_denotes (hv.denotes hn)
    refine ⟨hreads, fun s key => get_ext.mpr fun k => ?_⟩
    rw [get_update, get_update, hreads, SettingKey.reads_of_denotes (.int hn)]
  · exact SettingKey.reads_of_neither nofun fun _ => nofun
  · exact SettingKey.reads_of_neither nofun fun _ => nofun
  · exact SettingKey.reads_of_neither nofun fun _ => nofun

end Settings

end TrafficIndicator
