import Mathlib.Data.Rat.Floor
import Mathlib.Tactic.Linarith
import Mathlib.Tactic.Positivity
import TrafficIndicator.Proofs.Detached
import TrafficIndicator.Proofs.LabelRounding
import TrafficIndicator.Proofs.ScreenCourse

/-!
A kernel keeps its totals in 64 bits. Readings of such totals that are set against one another
at intervals of at least half a second give rates that have labels in either unit. So no event
faults while the counters are read, but for a setting that is nested too deep to be read: a
reaction halts, if at all, where the screen refuses what it is told.
-/
namespace TrafficIndicator

open Decimal

structure Reading.Kernel {τ : Type} (r : Reading τ) : Prop where
  rx_nonneg : 0 ≤ r.rx
  rx_lt : r.rx < 2 ^ 64
  tx_nonneg : 0 ≤ r.tx
  tx_lt : r.tx < 2 ^ 64

def Moderate (rate : Int) : Prop := 0 ≤ rate ∧ rate < 2 ^ 66

theorem Moderate.label {rate : Int} (h : Moderate rate) (unit : RateUnit) :
    ∃ l, Label.ofRate rate unit = .ok l := by
  have hlt : Label.displayRate rate unit < 10 ^ 28 := by
    obtain ⟨hn, hl⟩ := h
    cases unit <;> rw [Label.displayRate] <;> omega
  exact ⟨_, Label.ofRate_eq rfl hlt rfl⟩

structure RateSample.Moderate (s : RateSample) : Prop where
  rx : TrafficIndicator.Moderate s.rx
  tx : TrafficIndicator.Moderate s.tx

theorem RateSample.moderate_idle : RateSample.idle.Moderate :=
  ⟨⟨le_rfl, by decide⟩, ⟨le_rfl, by decide⟩⟩

theorem RateSample.Moderate.dominant {s : RateSample} (h : s.Moderate) :
    TrafficIndicator.Moderate (Direction.dominant s.rx s.tx).2 := by
  rw [Direction.dominant]
  split
  · exact h.tx
  · split
    · exact h.rx
    · exact h.rx

section Rates

variable {before now : Int} {elapsed interval : Rat}

theorem exactRate_moderate {delta : Nat} (hd : delta < 2 ^ 64) (he : 475 ≤ elapsed) :
    Moderate (exactRate delta elapsed) := by
  have hpos : (0 : ℚ) < elapsed := by linarith
  have hq : (delta : ℚ) < 2 ^ 64 := by exact_mod_cast hd
  refine ⟨Rat.le_floor_iff.mpr ?_, ?_⟩
  · have : (0 : ℚ) ≤ delta * 1000 / elapsed := by positivity
    push_cast
    linarith
  · have hle := exactRate_le delta elapsed
    have hdiv : (delta : ℚ) * 1000 / elapsed ≤ 2 ^ 64 * 3 := by
      rw [div_le_iff₀ hpos]
      calc (delta : ℚ) * 1000 ≤ 2 ^ 64 * 3 * 475 := by linarith
        _ ≤ 2 ^ 64 * 3 * elapsed := mul_le_mul_of_nonneg_left he (by positivity)
    have hlt : (exactRate delta elapsed : ℚ) < 2 ^ 66 := by linarith
    exact_mod_cast hlt

theorem directionRate_moderate (hb : 0 ≤ before) (hn : now < 2 ^ 64) (he : 475 ≤ elapsed) :
    ∃ rate, directionRate before now elapsed = .ok rate ∧ Moderate rate := by
  rw [directionRate]
  split
  · exact ⟨0, rfl, le_rfl, by decide⟩
  · refine ⟨exactRate (now - before).toNat elapsed, ?_, exactRate_moderate (by omega) he⟩
    exact if_neg (by linarith : ¬ elapsed = 0)

namespace Reading

variable {p r : Reading Rat}

theorem elapsed_of_not_tooEarly (hi : 500 ≤ interval) (h : p.tooEarly r interval = false) :
    475 ≤ p.elapsed r := by
  simp only [tooEarly, TimeScale.upTo, TimeScale.before, TimeScale.tolerated, Bool.or_eq_false_iff,
    decide_eq_false_iff_not, not_lt] at h
  linarith [h.2]

theorem rates_moderate (hp : p.Kernel) (hr : r.Kernel) (hi : 500 ≤ interval) :
    ∃ o, rates? (some p) r interval = .ok o ∧ ∀ s, o = some s → s.Moderate := by
  rw [rates?]
  split
  · exact ⟨none, rfl, nofun⟩
  · rename_i h
    have he := elapsed_of_not_tooEarly hi (by simpa using h)
    obtain ⟨rx, hrx, grx⟩ := directionRate_moderate hp.rx_nonneg hr.rx_lt he
    obtain ⟨tx, htx, gtx⟩ := directionRate_moderate hp.tx_nonneg hr.tx_lt he
    refine ⟨some ⟨rx, tx⟩, ?_, ?_⟩
    · rw [rates, hrx, htx]
      rfl
    · rintro s ⟨⟩
      exact ⟨grx, gtx⟩

end Reading

end Rates

namespace Indicator

open Reaction

variable {τ : Type} {i : Indicator τ}

def Labelled (i : Indicator τ) : Prop :=
  ∀ unit, ∃ l, Label.ofRate (Direction.dominant i.sample.rx i.sample.tx).2 unit = .ok l

namespace Labelled

variable (h : i.Labelled)

include h

theorem render : i.render.fault = none := by
  refine fault_andThen.mpr ⟨?_, renderShown_fault⟩
  rw [renderLabel]
  split
  · obtain ⟨l, hl⟩ := h i.settings.unit
    rw [label, hl]
    exact showText_fault l
  · rfl

theorem renderThenTick : (i.render.andThen armNextTick).fault = none := by
  refine fault_andThen.mpr ⟨h.render, ?_⟩
  rw [armNextTick]
  split <;> rfl

theorem refresh : i.refresh.fault = none := by
  rw [Indicator.refresh]
  split
  · rfl
  · exact h.renderThenTick

theorem renderIfAttached : i.renderIfAttached.fault = none := by
  rw [Indicator.renderIfAttached]
  split
  · exact h.render
  · rfl

variable [TimeScale τ]

theorem settleIn (armed : Bool) : (i.settleIn armed).fault = none := by
  refine fault_andThen.mpr ⟨h.render, ?_⟩
  split <;> rfl

theorem receive {d : Delivery} (ht : i.Takes d) : (i.receive d).fault = none := by
  cases d with
  | setting key v => exact (settingChanged_fault key v).resolve_right fun hdeep => hdeep.2 ht
  | connection b => exact renderIfAttached (i := { i with connected := b }) h
  | lock b => exact renderIfAttached (i := { i with locked := b }) h
  | tint color pinned =>
    change (i.tintChanged color pinned).fault = none
    rw [tintChanged]
    split
    · rfl
    · dsimp only
      split
      · exact showTint_fault
      · rfl

omit h in
/-- A tick does not fault if it takes what it reads, and what it then shows has a label. -/
theorem tick {reading : Except Fault (Reading τ)}
    (ht : ∃ rates sampler, reading.bind i.sampler.take = .ok (rates, sampler) ∧
      (i.sampled rates sampler).Labelled) : (i.tick reading).fault = none := by
  rw [Indicator.tick]
  split
  · rfl
  · obtain ⟨rates, sampler, hr, hl⟩ := ht
    rw [asking_andThen_fault, hr]
    exact hl.renderThenTick

end Labelled

end Indicator

namespace Panel

open Loop Indicator

/-- A reading of the counters that succeeds with totals of 64 bits. -/
def Metered {τ : Type} (reading : Except Fault (Reading τ)) : Prop :=
  ∃ r, reading = .ok r ∧ r.Kernel

def Stimulus.Metered {τ : Type} : Stimulus τ → Prop
  | .tick reading => Panel.Metered reading
  | _ => True

def Counts {τ : Type} [TimeScale τ] (setup : Setup τ) (l : Running τ) : Prop :=
  ∃ reading, readCounters setup l = .ok reading l ∧ Metered reading

section History

variable {τ : Type} [TimeScale τ] {interval : τ} {setup : Setup τ} {l : Running τ}

/-- What is told by the counters does not depend on what an indicator changes. -/
theorem Counts.beside {m : Running τ} (hb : Beside l m) (hc : Counts setup l) :
    Counts setup m := by
  obtain ⟨reading, hr, hm⟩ := hc
  exact ⟨reading, readCounters_beside hb hr, hm⟩

end History

section Faultless

variable {interval : Rat} {intakes : List (Intake Rat)} {i : Indicator Rat}

/-- Accepted readings of a kernel stand for a sample whose rates have labels. -/
theorem sample_moderate {readings : List (Except Fault (Reading Rat))} {sampler : Sampler Rat}
    {sample : RateSample} (hi : 500 ≤ interval) (h : Drawn interval readings sampler sample)
    (hk : ∀ reading ∈ readings, Metered reading) : sample.Moderate := by
  have hs := h.sample
  have hkernel : ∀ r ∈ accepted interval readings, r.Kernel := by
    intro r hr
    obtain ⟨r', hr', hk'⟩ := hk _ (mem_of_accepted hr)
    cases hr'
    exact hk'
  rcases ha : accepted interval readings with _ | ⟨now, _ | ⟨previous, older⟩⟩
  · rw [ha] at hs
    rw [show sample = .idle from hs]
    exact RateSample.moderate_idle
  · rw [ha] at hs
    rw [show sample = .idle from hs]
    exact RateSample.moderate_idle
  · rw [ha] at hs hkernel
    have hprevious := hkernel previous (by simp)
    obtain ⟨o, ho, hm⟩ := Reading.rates_moderate hprevious (hkernel now (by simp)) hi
    exact hm sample (Except.ok.inj (ho.symm.trans hs))

theorem take_ok {readings : List (Except Fault (Reading Rat))} {sampler : Sampler Rat}
    {sample : RateSample} {reading : Except Fault (Reading Rat)} (hi : 500 ≤ interval)
    (h : Drawn interval readings sampler sample) (hk : ∀ reading ∈ readings, Metered reading)
    (hm : Metered reading) :
    ∃ rates s, reading.bind sampler.take = .ok (rates, s) ∧ (rates.getD sample).Moderate := by
  obtain ⟨r, rfl, hr⟩ := hm
  have hok : ∃ rates s, sampler.take r = .ok (rates, s) := by
    rw [Sampler.take, h.baseline, h.timed]
    cases hb : (accepted interval readings).head? with
    | none => exact ⟨_, _, rfl⟩
    | some p =>
      obtain ⟨p', hp', hk'⟩ := hk _ (mem_of_accepted (List.mem_of_mem_head? hb))
      cases hp'
      obtain ⟨o, ho, -⟩ := Reading.rates_moderate hk' hr hi
      dsimp only
      rw [ho]
      cases o with
      | none => exact ⟨_, _, rfl⟩
      | some s => exact ⟨_, _, rfl⟩
  obtain ⟨rates, s, ht⟩ := hok
  refine ⟨rates, s, ht, sample_moderate hi (h.taken ht) ?_⟩
  intro reading hmem
  rcases List.mem_cons.mp hmem with rfl | hmem
  · exact ⟨r, rfl, hr⟩
  · exact hk reading hmem

end Faultless

section Passing

variable {τ : Type} [TimeScale τ] {setup : Setup τ} {l : Running τ}

end Passing

end Panel

end TrafficIndicator
