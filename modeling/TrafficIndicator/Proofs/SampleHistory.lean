import TrafficIndicator.Proofs.Emissions
import TrafficIndicator.Proofs.PanelEvents

/-!
An epoch begins when the indicator is made, and anew when it is detached or becomes enabled
while it is attached. The sample is kept by the indicator and the baseline by its sampler, yet
both are what the readings of the present epoch make of them: the baseline is the reading that
was accepted last, and the sample the rates between the two accepted last. Readings that fail,
come too early or give no rates leave both alone, and no earlier epoch counts.
-/
namespace TrafficIndicator

variable {τ : Type}

/-- What bears on the sample of an indicator: a reading that a tick asked for, which may have
failed, or the beginning of an epoch. -/
inductive Intake (τ : Type) where
  | asked (reading : Except Fault (Reading τ))
  | renewed

def Intake.epoch : List (Intake τ) → List (Except Fault (Reading τ))
  | [] => []
  | .renewed :: _ => []
  | .asked reading :: earlier => reading :: epoch earlier

section Accepting

variable [TimeScale τ] {interval : τ} {readings : List (Except Fault (Reading τ))}
  {now : Reading τ} {sampler s : Sampler τ} {sample : RateSample} {rates : Option RateSample}

/-- The readings that became the baseline, the latest first: the first one, and each that gave
rates when it was set against the one before. -/
def accepted (interval : τ) : List (Except Fault (Reading τ)) → List (Reading τ)
  | [] => []
  | .error _ :: earlier => accepted interval earlier
  | .ok now :: earlier =>
    match accepted interval earlier with
    | [] => [now]
    | previous :: older =>
      match rates? (some previous) now interval with
      | .ok (some _) => now :: previous :: older
      | _ => previous :: older

theorem accepted_first (h : accepted interval readings = []) :
    accepted interval (.ok now :: readings) = [now] := by
  rw [accepted, h]

theorem accepted_next {previous : Reading τ} {older : List (Reading τ)} {r : RateSample}
    (h : accepted interval readings = previous :: older)
    (hr : rates? (some previous) now interval = .ok (some r)) :
    accepted interval (.ok now :: readings) = now :: previous :: older := by
  rw [accepted, h]
  dsimp only
  rw [hr]

theorem accepted_skipped {previous : Reading τ} {older : List (Reading τ)}
    (h : accepted interval readings = previous :: older)
    (hr : ∀ r, rates? (some previous) now interval ≠ .ok (some r)) :
    accepted interval (.ok now :: readings) = previous :: older := by
  rw [accepted, h]
  dsimp only
  split
  · rename_i r hsome
    exact absurd hsome (hr r)
  · rfl

def Sampled (interval : τ) (sample : RateSample) : List (Reading τ) → Prop
  | now :: previous :: _ => rates? (some previous) now interval = .ok (some sample)
  | _ => sample = .idle

theorem Sampled.idle {taken : List (Reading τ)} (h : Sampled interval sample taken)
    (hfew : taken.length < 2) : sample = .idle := by
  rcases taken with _ | ⟨now, _ | ⟨previous, older⟩⟩
  · exact h
  · exact h
  · simp only [List.length_cons] at hfew
    omega

theorem Sampled.unique {taken : List (Reading τ)} {other : RateSample}
    (h : Sampled interval sample taken) (h' : Sampled interval other taken) : sample = other := by
  rcases taken with _ | ⟨now, _ | ⟨previous, older⟩⟩
  · exact h.trans h'.symm
  · exact h.trans h'.symm
  · exact Option.some.inj (Except.ok.inj (h.symm.trans h'))

structure Drawn (interval : τ) (readings : List (Except Fault (Reading τ)))
    (sampler : Sampler τ) (sample : RateSample) : Prop where
  timed : sampler.interval = interval
  baseline : sampler.baseline = (accepted interval readings).head?
  sample : Sampled interval sample (accepted interval readings)

theorem Drawn.unique {other : RateSample} (h : Drawn interval readings sampler sample)
    (h' : Drawn interval readings s other) : s = sampler ∧ other = sample := by
  refine ⟨?_, h'.sample.unique h.sample⟩
  obtain ⟨timed, baseline⟩ := s
  obtain ⟨timed', baseline'⟩ := sampler
  have htimed : timed = timed' := h'.timed.trans h.timed.symm
  have hbaseline : baseline = baseline' := h'.baseline.trans h.baseline.symm
  rw [htimed, hbaseline]

theorem drawn_reset (sampler : Sampler τ) : Drawn sampler.interval [] sampler.reset .idle :=
  ⟨rfl, rfl, rfl⟩

theorem Drawn.failed (h : Drawn interval readings sampler sample) (f : Fault) :
    Drawn interval (.error f :: readings) sampler sample :=
  ⟨h.timed, h.baseline, h.sample⟩

theorem Drawn.skipped (h : Drawn interval readings sampler sample)
    {more : List (Except Fault (Reading τ))}
    (ha : accepted interval more = accepted interval readings) :
    Drawn interval more sampler sample :=
  ⟨h.timed, ha ▸ h.baseline, ha ▸ h.sample⟩

/-- A reading that is taken becomes the baseline, with the rates since the one before, or
leaves sampler and sample as they are. -/
theorem Drawn.taken (h : Drawn interval readings sampler sample)
    (ht : sampler.take now = .ok (rates, s)) :
    Drawn interval (.ok now :: readings) s (rates.getD sample) := by
  rw [Sampler.take, h.baseline] at ht
  cases ha : accepted interval readings with
  | nil =>
    rw [ha] at ht
    cases ht
    have hfirst : accepted interval (.ok now :: readings) = [now] := accepted_first ha
    have hidle : sample = .idle := by
      have hs := h.sample
      rwa [ha] at hs
    refine ⟨h.timed, ?_, ?_⟩
    · rw [hfirst]
      rfl
    · rw [hfirst]
      exact hidle
  | cons previous older =>
    rw [ha] at ht
    dsimp only [List.head?_cons] at ht
    rw [h.timed] at ht
    cases hr : rates? (some previous) now interval with
    | error f =>
      rw [hr] at ht
      cases ht
    | ok o =>
      rw [hr] at ht
      cases o with
      | none =>
        cases ht
        apply h.skipped
        rw [ha, accepted_skipped ha]
        intro r hsome
        rw [hr] at hsome
        cases hsome
      | some r =>
        cases ht
        have hnext := accepted_next ha hr
        refine ⟨rfl, ?_, ?_⟩
        · rw [hnext]
          rfl
        · rw [hnext]
          exact hr

theorem Drawn.refused (h : Drawn interval readings sampler sample) {f : Fault}
    (ht : sampler.take now = .error f) : Drawn interval (.ok now :: readings) sampler sample := by
  rw [Sampler.take, h.baseline] at ht
  cases ha : accepted interval readings with
  | nil =>
    rw [ha] at ht
    cases ht
  | cons previous older =>
    rw [ha] at ht
    dsimp only [List.head?_cons] at ht
    rw [h.timed] at ht
    apply h.skipped
    rw [ha, accepted_skipped ha]
    intro r hsome
    rw [hsome] at ht
    cases ht

theorem mem_of_accepted {r : Reading τ} (h : r ∈ accepted interval readings) :
    .ok r ∈ readings := by
  induction readings with
  | nil => cases h
  | cons reading earlier ih =>
    cases reading with
    | error f => exact List.mem_cons_of_mem _ (ih h)
    | ok now =>
      have hor : r = now ∨ r ∈ accepted interval earlier := by
        rw [accepted] at h
        split at h
        · exact Or.inl (List.mem_singleton.mp h)
        · rename_i previous older ha
          rw [ha]
          split at h
          · exact List.mem_cons.mp h
          · exact Or.inr h
      rcases hor with rfl | hr
      · exact List.mem_cons_self
      · exact List.mem_cons_of_mem _ (ih hr)

end Accepting

namespace Indicator

open Reaction

variable {i j k : Indicator τ}

structure SameSample (i j : Indicator τ) : Prop where
  sampler : j.sampler = i.sampler
  sample : j.sample = i.sample

theorem SameSample.trans (h : SameSample i j) (h' : SameSample j k) : SameSample i k :=
  ⟨h'.sampler.trans h.sampler, h'.sample.trans h.sample⟩

structure Steady (i : Indicator τ) (r : Reaction τ) : Prop where
  state : SameSample i r.state
  states : ∀ p ∈ r.steps, SameSample i p.1

theorem Steady.of_same {r : Reaction τ} (h : Steady j r) (hs : SameSample i j) : Steady i r :=
  ⟨hs.trans h.state, fun p hp => hs.trans (h.states p hp)⟩

theorem Steady.andThen {r : Reaction τ} {next : Indicator τ → Reaction τ} (h : Steady i r)
    (hn : Steady r.state (next r.state)) : Steady i (r.andThen next) := by
  cases hf : r.fault with
  | some f =>
    rw [andThen_of_some hf]
    exact h
  | none =>
    rw [andThen_of_none hf]
    refine ⟨h.state.trans hn.state, fun p hp => ?_⟩
    rcases List.mem_append.mp hp with hp | hp
    · exact h.states p hp
    · exact h.state.trans (hn.states p hp)

theorem steady_quiet (i : Indicator τ) : Steady i i.quiet :=
  ⟨⟨rfl, rfl⟩, fun _ hp => (List.not_mem_nil hp).elim⟩

theorem steady_failing (i : Indicator τ) (f : Fault) : Steady i (i.failing f) :=
  ⟨⟨rfl, rfl⟩, fun _ hp => (List.not_mem_nil hp).elim⟩

theorem steady_asking (i : Indicator τ) (rs : List (Request τ)) : Steady i (i.asking rs) := by
  refine ⟨⟨rfl, rfl⟩, fun p hp => ?_⟩
  obtain ⟨q, -, rfl⟩ := List.mem_map.mp hp
  exact ⟨rfl, rfl⟩

theorem steady_rendering (i : Indicator τ) (ρ : Rendered) (rs : List (Request τ)) :
    Steady i (asking { i with rendered := ρ } rs) :=
  (steady_asking _ rs).of_same ⟨rfl, rfl⟩

theorem steady_showTint : Steady i i.showTint := by
  rw [showTint]
  split
  · exact steady_quiet i
  · exact steady_rendering i _ _

theorem steady_showVisible (b : Bool) : Steady i (i.showVisible b) := by
  rw [showVisible]
  split
  · exact steady_quiet i
  · refine (steady_rendering i _ _).andThen ?_
    split
    · exact steady_showTint
    · exact steady_quiet _

theorem steady_renderLabel : Steady i i.renderLabel := by
  rw [renderLabel]
  split
  · cases i.label with
    | ok l =>
      dsimp only [showText]
      split
      · exact steady_quiet i
      · exact steady_rendering i _ _
    | error f => exact steady_failing i f
  · exact steady_quiet i

theorem steady_renderShown : Steady i i.renderShown := by
  rw [renderShown]
  refine (steady_showVisible _).andThen ?_
  split
  · rw [showIcon]
    split
    · exact steady_quiet _
    · exact steady_rendering _ _ _
  · exact steady_quiet _

theorem steady_render : Steady i i.render := steady_renderLabel.andThen steady_renderShown

theorem steady_renderThenTick : Steady i (i.render.andThen armNextTick) := by
  refine steady_render.andThen ?_
  rw [armNextTick]
  split
  · exact steady_asking _ _
  · exact steady_quiet _

theorem steady_refresh : Steady i i.refresh := by
  rw [refresh]
  split
  · exact steady_quiet i
  · exact (steady_asking i _).andThen steady_renderThenTick

theorem steady_renderIfAttached : Steady i i.renderIfAttached := by
  rw [renderIfAttached]
  split
  · exact steady_render
  · exact steady_quiet i

theorem steady_connectionChanged (b : Bool) : Steady i (i.connectionChanged b) := by
  refine Steady.of_same (j := { i with connected := b }) ?_ ⟨rfl, rfl⟩
  exact (steady_asking _ _).andThen steady_renderIfAttached

theorem steady_lockChanged (b : Bool) : Steady i (i.lockChanged b) :=
  Steady.of_same (j := { i with locked := b }) steady_renderIfAttached ⟨rfl, rfl⟩

theorem steady_tintChanged (color : Value) (pinned : Bool) :
    Steady i (i.tintChanged color pinned) := by
  rw [tintChanged]
  split
  · exact steady_asking i _
  · refine Steady.of_same (j := { i with pinned := pinned, tint := color }) ?_ ⟨rfl, rfl⟩
    dsimp only
    split
    · exact steady_showTint
    · exact steady_quiet _

variable [TimeScale τ]

theorem steady_settleIn (armed : Bool) : Steady i (i.settleIn armed) := by
  refine steady_render.andThen ?_
  split
  · exact steady_asking _ _
  · exact steady_quiet _

/-- Of a tick that takes a reading, the last state and those in which commands are sent have
the sampler and the sample that the reading makes. -/
theorem tick_takes {reading : Except Fault (Reading τ)} {rates : Option RateSample}
    {sampler : Sampler τ} (ha : i.attached = true)
    (ht : reading.bind i.sampler.take = .ok (rates, sampler)) :
    SameSample (i.sampled rates sampler) (i.tick reading).state ∧
      ∀ p ∈ (i.tick reading).steps, p.2.command? ≠ none →
        SameSample (i.sampled rates sampler) p.1 := by
  have hsteady : Steady (i.sampled rates sampler)
      ((i.sampled rates sampler).render.andThen armNextTick) := steady_renderThenTick
  have hsteps : (i.tick reading).steps =
      (i.asking [.disarm .tick, .disarm .refresh]).steps ++
        ((i.sampled rates sampler).render.andThen armNextTick).steps := by
    rw [tick, if_neg (by simp [ha]), andThen_of_none rfl]
    dsimp only [asking_state]
    rw [ht]
    rfl
  have hstate : (i.tick reading).state =
      ((i.sampled rates sampler).render.andThen armNextTick).state := by
    rw [tick, if_neg (by simp [ha]), asking_andThen_state, ht]
    rfl
  refine ⟨hstate ▸ hsteady.state, ?_⟩
  rw [hsteps]
  intro p hp hc
  rcases List.mem_append.mp hp with hp | hp
  · -- disarming sends nothing
    obtain ⟨q, hq, rfl⟩ := List.mem_map.mp hp
    simp only [List.mem_cons, List.not_mem_nil, or_false] at hq
    rcases hq with rfl | rfl
    · exact absurd rfl hc
    · exact absurd rfl hc
  · exact hsteady.states p hp

theorem tick_fails {reading : Except Fault (Reading τ)} {f : Fault}
    (ht : reading.bind i.sampler.take = .error f) : Steady i (i.tick reading) := by
  rw [tick]
  split
  · exact steady_quiet i
  · refine (steady_asking i _).andThen ?_
    dsimp only [asking_state]
    rw [ht]
    exact steady_failing i f

theorem steady_tick_of_detached {reading : Except Fault (Reading τ)} (ha : i.attached = false) :
    Steady i (i.tick reading) := by
  rw [tick, ha]
  exact steady_quiet i

inductive Renewal (i j : Indicator τ) : Prop where
  | renewed (hr : i.resets j = true) (hb : j.sampler = i.sampler.reset) (hs : j.sample = .idle)
  | kept (hr : i.resets j = false) (hs : SameSample i j)

theorem renewal_settingChanged (key : LooseText) (v : Value) :
    Renewal i (i.settingChanged key v).state := by
  cases settingChanged_taken (i := i) key v with
  | refused hu hr =>
    rw [hr]
    exact .kept (SameMode.resets ⟨rfl, rfl⟩) ⟨rfl, rfl⟩
  | unknown hu hf hs ho =>
    rw [hs]
    exact .kept (SameMode.resets ⟨rfl, rfl⟩) ⟨rfl, rfl⟩
  | stored hu hf ha hs ho =>
    rw [hs]
    refine .kept ?_ ⟨rfl, rfl⟩
    rw [resets, ha]
    rfl
  | turnedOn hu hf ha ht hs ho =>
    rw [hs]
    refine .renewed ?_ rfl rfl
    simp only [turnsOn, Bool.and_eq_true] at ht
    simp [resets, restart, ha, ht.1.2, ht.2]
  | @changed s hu hf ha ht hs ho =>
    rw [hs]
    refine .kept ?_ ⟨rfl, rfl⟩
    cases he : s.enabled with
    | false => simp [resets, ha, he]
    | true => simp [resets, ha, enabled_of_not_turnsOn hu ht he]

omit [TimeScale τ] in
theorem renewal_join : Renewal i i.join.state := by
  rw [join_spec.1]
  refine .kept ?_ ⟨rfl, rfl⟩
  rw [resets]
  cases i.attached <;> cases i.settings.enabled <;> rfl

omit [TimeScale τ] in
theorem renewal_leave : Renewal i i.leave.state := by
  rw [leave]
  split
  · rename_i ha
    refine .renewed ?_ rfl rfl
    rw [resets, ha]
    rfl
  · exact .kept (SameMode.resets ⟨rfl, rfl⟩) ⟨rfl, rfl⟩

end Indicator

namespace Panel

open Loop Indicator

variable [TimeScale τ] {interval : τ} {intakes : List (Intake τ)}

def Stimulus.added (s : Stimulus τ) (i j : Indicator τ) : List (Intake τ) :=
  (if i.resets j then [.renewed] else []) ++
    match s with
    | .tick reading => if i.attached then [.asked reading] else []
    | _ => []

/-- The loops of an indicator and what bore on its sample since it was made. An event may come
at any time, from any side, and may break off; everything but the indicator may change in
between. -/
inductive Measured (interval : τ) : List (Intake τ) → Running τ → Prop where
  | fresh {l : Running τ} (hi : l.host.owner.indicator = l.host.owner.indicator.fresh)
      (ht : l.host.owner.indicator.sampler.interval = interval) : Measured interval [] l
  | reacted {intakes : List (Intake τ)} {l m : Running τ} (setup : Setup τ) (s : Stimulus τ)
      (h : Measured interval intakes l) (hm : m = after (react setup s.reaction) l) :
      Measured interval
        (s.added l.host.owner.indicator m.host.owner.indicator ++ intakes) m
  | around {intakes : List (Intake τ)} {l l' : Running τ} (h : Measured interval intakes l)
      (hi : l'.host.owner.indicator = l.host.owner.indicator) : Measured interval intakes l'

abbrev Accords (interval : τ) (intakes : List (Intake τ)) (i : Indicator τ) : Prop :=
  Drawn interval (Intake.epoch intakes) i.sampler i.sample

theorem Accords.of_same {i j : Indicator τ} (h : Accords interval intakes i)
    (hs : SameSample i j) : Accords interval intakes j := by
  rw [Accords, hs.sampler, hs.sample]
  exact h

theorem Accords.of_renewal {i j : Indicator τ} (h : Accords interval intakes i)
    (hr : Renewal i j) :
    Accords interval ((if i.resets j then [.renewed] else []) ++ intakes) j := by
  cases hr with
  | renewed hr hb hs =>
    rw [hr, Accords, hb, hs, ← h.timed]
    exact drawn_reset i.sampler
  | kept hr hs =>
    rw [hr]
    exact h.of_same hs

theorem Renewal.of_silent {setup : Setup τ} {f : Indicator τ → Reaction τ} {l : Running τ}
    (hr : Renewal l.host.owner.indicator (f l.host.owner.indicator).state)
    (hc : (f l.host.owner.indicator).commands = []) :
    Renewal l.host.owner.indicator (after (react setup f) l).host.owner.indicator := by
  rcases indicator_after_react setup f l with hi | ⟨p, hp, hpc, -⟩
  · rw [hi]
    exact hr
  · have hnone := List.filterMap_eq_nil_iff.mp hc _ (List.mem_map_of_mem hp)
    exact absurd hnone hpc

theorem Renewal.of_steady {setup : Setup τ} {f : Indicator τ → Reaction τ} {l : Running τ}
    (hs : Steady l.host.owner.indicator (f l.host.owner.indicator))
    (hp : Paced l.host.owner.indicator (f l.host.owner.indicator)) :
    Renewal l.host.owner.indicator (after (react setup f) l).host.owner.indicator := by
  refine .kept (mode_after_react hp).resets ?_
  rcases indicator_after_react setup f l with hi | ⟨p, hmem, -, hi⟩
  · rw [hi]
    exact hs.state
  · rw [hi]
    exact hs.states p hmem

theorem Stimulus.renewal (setup : Setup τ) {s : Stimulus τ} (l : Running τ)
    (hs : ∀ reading, s ≠ .tick reading) :
    Renewal l.host.owner.indicator
      (after (react setup s.reaction) l).host.owner.indicator := by
  cases s with
  | join =>
    exact Renewal.of_silent renewal_join silent_join.commands
  | settleIn armed => exact Renewal.of_steady (steady_settleIn armed) (paced_settleIn armed)
  | deliver d =>
    cases d with
    | setting key v =>
      exact Renewal.of_silent (renewal_settingChanged key v) (settingChanged_commands key v)
    | connection b =>
      exact Renewal.of_steady (steady_connectionChanged b) (paced_connectionChanged b)
    | tint color pinned =>
      exact Renewal.of_steady (steady_tintChanged color pinned) (paced_tintChanged color pinned)
    | lock b => exact Renewal.of_steady (steady_lockChanged b) (paced_lockChanged b)
  | tick reading => exact absurd rfl (hs reading)
  | refresh => exact Renewal.of_steady steady_refresh paced_refresh
  | leave => exact Renewal.of_silent renewal_leave silent_leave.commands

theorem accords_tick (setup : Setup τ) {reading : Except Fault (Reading τ)} {l : Running τ}
    (ha : l.host.owner.indicator.attached = true)
    (h : Accords interval intakes l.host.owner.indicator) :
    Accords interval (.asked reading :: intakes)
      (after (react setup (Stimulus.tick reading).reaction) l).host.owner.indicator := by
  have hleft := indicator_after_react setup (Stimulus.tick reading).reaction l
  generalize (after (react setup (Stimulus.tick reading).reaction) l).host.owner.indicator = j
    at hleft ⊢
  cases ht : reading.bind l.host.owner.indicator.sampler.take with
  | error f =>
    have hsame : SameSample l.host.owner.indicator j := by
      obtain ⟨hstate, hstates⟩ := tick_fails ht
      rcases hleft with rfl | ⟨p, hp, -, rfl⟩
      · exact hstate
      · exact hstates p hp
    refine Accords.of_same ?_ hsame
    cases reading with
    | error e => exact Drawn.failed h e
    | ok now => exact Drawn.refused h ht
  | ok taken =>
    obtain ⟨rates, sampler⟩ := taken
    have hsame : SameSample (l.host.owner.indicator.sampled rates sampler) j := by
      obtain ⟨hstate, hstates⟩ := tick_takes ha ht
      rcases hleft with rfl | ⟨p, hp, hc, rfl⟩
      · exact hstate
      · exact hstates p hp hc
    refine Accords.of_same ?_ hsame
    cases reading with
    | error e => cases ht
    | ok now => exact Drawn.taken h ht

theorem accords_react (setup : Setup τ) (s : Stimulus τ) {l m : Running τ}
    (hm : m = after (react setup s.reaction) l)
    (h : Accords interval intakes l.host.owner.indicator) :
    Accords interval (s.added l.host.owner.indicator m.host.owner.indicator ++ intakes)
      m.host.owner.indicator := by
  cases s with
  | tick reading =>
    have hp := paced_tick (i := l.host.owner.indicator) reading
    have hkept : l.host.owner.indicator.resets m.host.owner.indicator = false := by
      rw [hm]
      exact (mode_after_react hp).resets
    rw [Stimulus.added, hkept]
    cases ha : l.host.owner.indicator.attached with
    | true =>
      rw [hm]
      exact accords_tick setup ha h
    | false =>
      have hr : Renewal l.host.owner.indicator m.host.owner.indicator := by
        rw [hm]
        exact Renewal.of_steady (steady_tick_of_detached ha) hp
      have hnext := h.of_renewal hr
      rw [hkept] at hnext
      exact hnext
  | join | settleIn | deliver | refresh | leave =>
    have hr : Renewal l.host.owner.indicator m.host.owner.indicator := by
      rw [hm]
      exact Stimulus.renewal setup l nofun
    dsimp only [Stimulus.added]
    rw [List.append_nil]
    exact h.of_renewal hr

theorem Measured.accords {l : Running τ} (h : Measured interval intakes l) :
    Accords interval intakes l.host.owner.indicator := by
  induction h with
  | fresh hi ht =>
    rw [hi, ← ht]
    exact drawn_reset _
  | reacted setup s h hm ih => exact accords_react setup s hm ih
  | around h hi ih =>
    rw [hi]
    exact ih

def MeasuredOn (interval : τ) (intakes : List (Intake τ)) (l : Running τ) : Prop :=
  ∃ more, Measured interval (more ++ intakes) l

theorem lasting_measuredOn (interval : τ) (intakes : List (Intake τ)) :
    Lasting (MeasuredOn interval intakes) where
  reacts setup s l := by
    rintro ⟨more, h⟩
    have hnext := h.reacted setup s rfl
    rw [← List.append_assoc] at hnext
    exact ⟨_, hnext⟩
  around _ _ hi _ := by
    rintro ⟨more, h⟩
    exact ⟨more, h.around hi⟩

/-- The baseline is the reading of the present epoch that was accepted last, and the sample the
rates between the last two, or none while there are no two. Neither depends on anything that
was read before. Whatever operation comes next, or timer, and however it ends, the history
only grows. -/
theorem sample_of_epoch {l : Running τ} (h : Measured interval intakes l) :
    let i := l.host.owner.indicator
    let taken := accepted interval (Intake.epoch intakes)
    (i.sampler.interval = interval ∧ i.sampler.baseline = taken.head?) ∧
      (taken.length < 2 → i.sample = .idle) ∧
      (∀ now previous older, taken = now :: previous :: older →
        rates? (some previous) now interval = .ok (some i.sample)) ∧
      (∀ r ∈ taken, .ok r ∈ Intake.epoch intakes) ∧
      (∀ others m, Measured interval others m → Intake.epoch others = Intake.epoch intakes →
        SameSample i m.host.owner.indicator) ∧
      (∀ setup op, MeasuredOn interval intakes (after (Operation.act setup op) l)) ∧
      ∀ setup e, MeasuredOn interval intakes (after (fire setup e) l) := by
  intro i taken
  have hnow : MeasuredOn interval intakes l := ⟨[], h⟩
  refine ⟨⟨h.accords.timed, h.accords.baseline⟩, fun hfew => h.accords.sample.idle hfew, ?_,
    fun r => mem_of_accepted, ?_, ?_, ?_⟩
  · intro now previous older htaken
    have hs : Sampled interval i.sample taken := h.accords.sample
    rwa [htaken] at hs
  · intro others m hm he
    have hothers := hm.accords
    rw [Accords, he] at hothers
    obtain ⟨hsampler, hsample⟩ := h.accords.unique hothers
    exact ⟨hsampler, hsample⟩
  · intro setup op
    exact endsIn_iff_after.mp ((lasting_measuredOn interval intakes).operation setup op l hnow)
  · intro setup e
    exact endsIn_iff_after.mp ((lasting_measuredOn interval intakes).fire setup e l hnow)

/-- Rates of the second epoch, in which a reading failed between the two that count. -/
theorem sample_after_rejoining :
    ∃ (l : Running Rat) (intakes : List (Intake Rat)), Measured 2000 intakes l ∧
      Intake.epoch intakes = [.ok ⟨4000, 0, 6000⟩, .error .undecodable, .ok ⟨0, 0, 4000⟩] ∧
      l.host.owner.indicator.sample = ⟨2000, 0⟩ := by
  let go (l : Running Rat) (s : Stimulus Rat) := after (react secluded s.reaction) l
  let l₀ : Running Rat := made { enabled := true } {}
  let l₁ := go l₀ .join
  let l₂ := go l₁ (.tick (.ok ⟨900, 0, 0⟩))
  let l₃ := go l₂ (.tick (.ok ⟨70000, 0, 2000⟩))
  let l₄ := go l₃ .leave
  let l₅ := go l₄ .join
  let l₆ := go l₅ (.tick (.ok ⟨0, 0, 4000⟩))
  let l₇ := go l₆ (.tick (.error .undecodable))
  let l₈ := go l₇ (.tick (.ok ⟨4000, 0, 6000⟩))
  have h₀ : Measured 2000 [] l₀ := .fresh rfl rfl
  have h₁ : Measured 2000 _ l₁ := h₀.reacted secluded .join rfl
  have h₂ : Measured 2000 _ l₂ := h₁.reacted secluded (.tick (.ok ⟨900, 0, 0⟩)) rfl
  have h₃ : Measured 2000 _ l₃ := h₂.reacted secluded (.tick (.ok ⟨70000, 0, 2000⟩)) rfl
  have h₄ : Measured 2000 _ l₄ := h₃.reacted secluded .leave rfl
  have h₅ : Measured 2000 _ l₅ := h₄.reacted secluded .join rfl
  have h₆ : Measured 2000 _ l₆ := h₅.reacted secluded (.tick (.ok ⟨0, 0, 4000⟩)) rfl
  have h₇ : Measured 2000 _ l₇ := h₆.reacted secluded (.tick (.error .undecodable)) rfl
  have h₈ : Measured 2000 _ l₈ := h₇.reacted secluded (.tick (.ok ⟨4000, 0, 6000⟩)) rfl
  refine ⟨l₈, _, h₈, by decide +kernel, ?_⟩
  obtain ⟨-, -, hrates, -⟩ := sample_of_epoch h₈
  have htaken := hrates ⟨4000, 0, 6000⟩ ⟨0, 0, 4000⟩ [] (by decide +kernel)
  have hsample : rates? (some ⟨0, 0, 4000⟩) ⟨4000, 0, 6000⟩ (2000 : Rat) =
      .ok (some ⟨2000, 0⟩) := by
    decide +kernel
  exact Option.some.inj (Except.ok.inj (htaken.symm.trans hsample))

end Panel

end TrafficIndicator
