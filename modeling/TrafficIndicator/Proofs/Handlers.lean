import TrafficIndicator.Proofs.Reactions

/-!
One inversion lemma for each event: the state that it leaves when it does not fault, and its
orders to the timers.
-/
namespace TrafficIndicator.Indicator

open Reaction

variable {τ : Type} {i : Indicator τ}

@[simp] theorem armNextTick_state : i.armNextTick.state = i := by
  rw [armNextTick]; split <;> rfl

theorem armNextTick_orders :
    i.armNextTick.orders =
      if i.attached && i.settings.enabled then [.arm .tick i.sampler.interval] else [] := by
  rw [armNextTick]; split <;> rfl

/-- A render pass followed by the next tick, as ticks and refreshes end. -/
theorem render_armNextTick (h : (i.render.andThen armNextTick).fault = none) :
    i.render.fault = none ∧ (i.render.andThen armNextTick).state = i.render.state ∧
      (i.render.andThen armNextTick).orders =
        if i.attached && i.settings.enabled then [.arm .tick i.sampler.interval] else [] := by
  rw [fault_andThen] at h
  obtain ⟨ρ, hρ⟩ := render_state (i := i)
  refine ⟨h.1, ?_, ?_⟩
  · rw [state_andThen h.1, armNextTick_state]
  · rw [orders_andThen h.1, render_orders, armNextTick_orders, hρ]
    rfl

section Ticking

variable [TimeScale τ]

def sampled (i : Indicator τ) (rates : Option RateSample) (sampler : Sampler τ) : Indicator τ :=
  { i with sampler := sampler, sample := rates.getD i.sample }

theorem tick_of_attached {reading : Except Fault (Reading τ)} (ha : i.attached = true)
    (h : (i.tick reading).fault = none) :
    ∃ rates sampler, reading.bind i.sampler.take = .ok (rates, sampler) ∧
      (i.sampled rates sampler).render.fault = none ∧
      (i.tick reading).state = (i.sampled rates sampler).render.state ∧
      (i.tick reading).orders = [.disarm .tick, .disarm .refresh] ++
        if i.settings.enabled then [.arm .tick sampler.interval] else [] := by
  rw [tick, if_neg (by simp [ha])] at h ⊢
  simp only [asking_andThen_fault, asking_andThen_state, asking_andThen_orders] at h ⊢
  cases hr : reading.bind i.sampler.take with
  | error f => rw [hr] at h; cases h
  | ok p =>
    obtain ⟨rates, sampler⟩ := p
    rw [hr] at h
    obtain ⟨hf, hs, ho⟩ := render_armNextTick h
    refine ⟨rates, sampler, rfl, hf, hs, ?_⟩
    dsimp only at ho ⊢
    rw [ho, ha, Bool.true_and]
    rfl

end Ticking

theorem refresh_of_detached (h : i.attached = false) : i.refresh = i.quiet := by
  rw [refresh, h]
  rfl

theorem refresh_of_attached (ha : i.attached = true) (h : i.refresh.fault = none) :
    i.render.fault = none ∧ i.refresh.state = i.render.state ∧
      i.refresh.orders = .disarm .tick ::
        if i.settings.enabled then [.arm .tick i.sampler.interval] else [] := by
  rw [refresh, if_neg (by simp [ha])] at h ⊢
  simp only [asking_andThen_fault, asking_andThen_state, asking_andThen_orders] at h ⊢
  obtain ⟨hf, hs, ho⟩ := render_armNextTick h
  refine ⟨hf, hs, ?_⟩
  rw [ho, ha, Bool.true_and]
  rfl

def turnsOn (i : Indicator τ) (key : LooseText) (s : Settings) : Bool :=
  SettingKey.ofText? key = some .enabled && s.enabled && !i.settings.enabled

/-- A setting that does not turn the indicator on leaves it enabled only if it was. -/
theorem enabled_of_not_turnsOn {key : LooseText} {v : Value} {s : Settings}
    (hu : i.settings.apply i.nesting key v = .ok (some s)) (ht : i.turnsOn key s = false)
    (he : s.enabled = true) : i.settings.enabled = true := by
  obtain ⟨k, hk, hkept⟩ := Settings.apply_ok hu
  cases k with
  | enabled =>
    rw [turnsOn, hk, he] at ht
    simpa using ht
  | autoHide => rw [← hkept (by decide), he]
  | unit => rw [← hkept (by decide), he]

section Delivering

variable [TimeScale τ]

/-- A setting that can be read is applied in any case. An attached indicator refreshes later, and
one that is turned on starts anew and ticks at once. -/
inductive SettingTaken (i : Indicator τ) (key : LooseText) (v : Value) : Reaction τ → Prop where
  | refused {r f} (hu : i.settings.apply i.nesting key v = .error f) (hr : r = i.failing f) :
      SettingTaken i key v r
  | unknown {r} (hu : i.settings.apply i.nesting key v = .ok none) (hf : r.fault = none)
      (hs : r.state = i) (ho : r.orders = []) : SettingTaken i key v r
  | stored {r s} (hu : i.settings.apply i.nesting key v = .ok (some s)) (hf : r.fault = none)
      (ha : i.attached = false) (hs : r.state = { i with settings := s }) (ho : r.orders = []) :
      SettingTaken i key v r
  | turnedOn {r s} (hu : i.settings.apply i.nesting key v = .ok (some s)) (hf : r.fault = none)
      (ha : i.attached = true) (ht : i.turnsOn key s = true)
      (hs : r.state = restart { i with settings := s })
      (ho : r.orders = [.arm .tick TimeScale.zero, .arm .refresh (TimeScale.ofNat debounce)]) :
      SettingTaken i key v r
  | changed {r s} (hu : i.settings.apply i.nesting key v = .ok (some s)) (hf : r.fault = none)
      (ha : i.attached = true) (ht : i.turnsOn key s = false)
      (hs : r.state = { i with settings := s })
      (ho : r.orders = [.arm .refresh (TimeScale.ofNat debounce)]) : SettingTaken i key v r

theorem settingChanged_taken (key : LooseText) (v : Value) :
    SettingTaken i key v (i.settingChanged key v) := by
  cases hu : i.settings.apply i.nesting key v with
  | error f =>
    refine .refused hu ?_
    rw [settingChanged, hu]
  | ok o =>
    cases o with
    | none => refine .unknown hu ?_ ?_ ?_ <;> rw [settingChanged, hu] <;> rfl
    | some s =>
      cases ha : i.attached with
      | false =>
        refine .stored hu ?_ ha ?_ ?_ <;> simp [settingChanged, hu, ha]
      | true =>
        cases ht : i.turnsOn key s with
        | false =>
          refine .changed hu ?_ ha ht ?_ ?_ <;> rw [turnsOn] at ht <;>
            simp [settingChanged, hu, ht, ha]
        | true =>
          refine .turnedOn hu ?_ ha ht ?_ ?_ <;> rw [turnsOn] at ht <;>
            simp [settingChanged, hu, ht, ha, restart, List.filter_cons]

theorem settingChanged_commands (key : LooseText) (v : Value) :
    (i.settingChanged key v).commands = [] := by
  rw [settingChanged]
  split
  · rfl
  · simp [Request.command?]
  · rename_i s _
    cases ha : i.attached with
    | false => simp [Request.command?]
    | true =>
      dsimp only
      generalize (SettingKey.ofText? key = some .enabled && s.enabled && !i.settings.enabled) = on
      cases on <;> simp [Request.command?]

/-- A setting faults exactly if it cannot be read, and then nothing is changed. -/
theorem settingChanged_settings (key : LooseText) (v : Value) :
    (∃ f, i.settings.apply i.nesting key v = .error f ∧ i.settingChanged key v = i.failing f) ∨
      ∃ o, i.settings.apply i.nesting key v = .ok o ∧ (i.settingChanged key v).fault = none ∧
        (i.settingChanged key v).state.settings = o.getD i.settings := by
  cases settingChanged_taken (i := i) key v with
  | refused hu hr => exact .inl ⟨_, hu, hr⟩
  | unknown hu hf hs => exact .inr ⟨_, hu, hf, by rw [hs]; rfl⟩
  | stored hu hf ha hs => exact .inr ⟨_, hu, hf, by rw [hs]; rfl⟩
  | turnedOn hu hf ha ht hs => exact .inr ⟨_, hu, hf, by rw [hs]; rfl⟩
  | changed hu hf ha ht hs => exact .inr ⟨_, hu, hf, by rw [hs]; rfl⟩

end Delivering

/-- A switched connection or lock renders at once, if the indicator is attached. -/
theorem renderIfAttached_spec (h : i.renderIfAttached.fault = none) :
    i.renderIfAttached.orders = [] ∧ (∃ ρ, i.renderIfAttached.state = { i with rendered := ρ }) ∧
      (i.attached = true → Current i.renderIfAttached.state) := by
  rw [renderIfAttached] at h ⊢
  split
  · rename_i ha
    rw [if_pos ha] at h
    exact ⟨render_orders, render_state, fun _ => render_current h⟩
  · rename_i ha
    exact ⟨rfl, ⟨i.rendered, rfl⟩, fun hc => absurd hc ha⟩

theorem connectionChanged_spec {b : Bool} (h : (i.connectionChanged b).fault = none) :
    (i.connectionChanged b).orders = [] ∧
      (∃ ρ, (i.connectionChanged b).state = { i with connected := b, rendered := ρ }) ∧
      (i.attached = true → Current (i.connectionChanged b).state) := by
  rw [connectionChanged] at h ⊢
  simp only [asking_andThen_fault, asking_andThen_state, asking_andThen_orders] at h ⊢
  obtain ⟨ho, hs, hc⟩ := renderIfAttached_spec h
  exact ⟨by simp [ho], hs, hc⟩

theorem lockChanged_spec {b : Bool} (h : (i.lockChanged b).fault = none) :
    (i.lockChanged b).orders = [] ∧
      (∃ ρ, (i.lockChanged b).state = { i with locked := b, rendered := ρ }) ∧
      (i.attached = true → Current (i.lockChanged b).state) :=
  renderIfAttached_spec h

theorem tintChanged_spec (color : Value) (pinned : Bool) :
    (i.tintChanged color pinned).orders = [] ∧
      ∃ p t c, (i.tintChanged color pinned).state =
        { i with pinned := p, tint := t, rendered := { i.rendered with tint := c } } := by
  rw [tintChanged]
  split
  · exact ⟨by simp, i.pinned, i.tint, i.rendered.tint, rfl⟩
  · dsimp only
    split
    · obtain ⟨c, hc⟩ := showTint_state (i := { i with pinned := pinned, tint := color })
      exact ⟨showTint_orders, pinned, color, c, hc⟩
    · exact ⟨rfl, pinned, color, i.rendered.tint, rfl⟩

section Joining

variable [TimeScale τ]

theorem settleIn_spec {armed : Bool} (h : (i.settleIn armed).fault = none) :
    i.render.fault = none ∧ (i.settleIn armed).state = i.render.state ∧
      (i.settleIn armed).orders =
        if i.settings.enabled && !armed then [.arm .tick TimeScale.zero] else [] := by
  rw [settleIn, fault_andThen] at h
  obtain ⟨ρ, hρ⟩ := render_state (i := i)
  rw [settleIn, state_andThen h.1, orders_andThen h.1, render_orders, hρ]
  refine ⟨h.1, ?_, ?_⟩
  · split <;> rfl
  · dsimp only
    split <;> rfl

end Joining

theorem join_spec : i.join.state = { i with attached := true } ∧ i.join.orders = [] := by
  simp [join]

theorem join_fault : i.join.fault = none := rfl

theorem leave_fault : i.leave.fault = none := by
  rw [leave]
  split <;> rfl

theorem leave_spec :
    i.leave.state = (if i.attached then i.fresh else i) ∧ i.leave.orders = [] ∧
      i.leave.state.attached = false := by
  rw [leave]
  split
  · simp [fresh]
  · rename_i h
    exact ⟨rfl, rfl, by simpa using h⟩

end TrafficIndicator.Indicator
