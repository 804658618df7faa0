import TrafficIndicator.Proofs.Endings
import TrafficIndicator.Proofs.ScreenInvariant

/-!
A tick disarms both timers before it reads the counters, and arms the next tick only when it
is done. One that cannot read them leaves the indicator and the screen as they were, but
nothing armed: the indicator stands still until it is told something that arms a timer.
-/
namespace TrafficIndicator.Panel

open Loop Indicator

variable {τ : Type} [TimeScale τ] {setup : Setup τ} {l m k : Running τ} {f : Fault}

structure GivenUp (l m : Running τ) : Prop where
  indicator : m.host.owner.indicator = l.host.owner.indicator
  screen : m.host.owner.screen = l.host.owner.screen
  beside : Beside l m
  idle : ∀ kind, m.host.owner.timers.isArmed kind = false

theorem react_disarming {g : Indicator τ → Reaction τ}
    (hg : g l.host.owner.indicator = ⟨l.host.owner.indicator,
      [(l.host.owner.indicator, .disarm .tick), (l.host.owner.indicator, .disarm .refresh)],
      some f⟩) :
    ∃ m, react setup g l = .error (.fault f) m ∧ GivenUp l m := by
  rw [react, bind_get]
  dsimp only
  rw [hg]
  refine ⟨_, rfl, rfl, rfl, ⟨rfl, rfl, rfl, rfl, rfl, rfl, rfl⟩, fun kind => ?_⟩
  refine (Slots.isArmed_disarm ..).trans ?_
  rw [Slots.isArmed_disarm]
  cases kind <;> simp

theorem tick_gives_up (ha : l.host.owner.indicator.attached = true)
    (hr : readCounters setup l = .ok (.error f) l) :
    ∃ m, tick setup l = .error (.fault f) m ∧ GivenUp l m := by
  rw [tick, bind_get, if_pos ha, bind_of_ok hr]
  apply react_disarming
  rw [Indicator.tick, ha]
  rfl

theorem fired_tick_gives_up (token : Nat) (ha : l.host.owner.indicator.attached = true)
    (hr : readCounters setup l = .ok (.error f) l) :
    ∃ m, fireOwn setup token .tick l = .error (.fault f) m ∧ GivenUp l m := by
  let released : Running τ := { l with host := { l.host with owner := { l.host.owner with
    timers := l.host.owner.timers.release .tick token } } }
  have hreleased : onTimers (fun s q => (s.release .tick token, q)) l = .ok () released := rfl
  have hb : Beside l released := ⟨rfl, rfl, rfl, rfl, rfl, rfl, rfl⟩
  obtain ⟨m, hm, hi, hs, hbm, hidle⟩ := tick_gives_up (l := released) ha (readCounters_beside hb hr)
  refine ⟨m, ?_, hi, hs, hb.trans hbm, hidle⟩
  rw [fireOwn, bind_of_ok hreleased]
  exact hm

theorem readCounters_scripted {rx tx : Int} {message : LooseText}
    (h : l.host.owner.counters = .scripted rx tx (some message)) :
    readCounters setup l = .ok (.error (.reported message)) l := by
  rw [readCounters, bind_get, h]
  rfl

theorem reached_counting (h : Reached l) (counters : CounterFeed) :
    Reached { l with host.owner.counters := counters } :=
  .around h rfl rfl

/-- A setting that is recognised arms a refresh, whatever was armed before. -/
theorem refresh_armed_of_setting {key : LooseText} {v : Value} {s : Settings}
    (ha : m.host.owner.indicator.attached = true)
    (hu : m.host.owner.indicator.settings.apply m.host.owner.indicator.nesting key v =
      .ok (some s)) :
    ∃ k, listen setup (.setting key v) m = .ok () k ∧
      k.host.owner.timers.isArmed .refresh = true := by
  have hfaultless : (m.host.owner.indicator.settingChanged key v).fault = none := by
    rcases settingChanged_settings (i := m.host.owner.indicator) key v with
      ⟨f, hfails, -⟩ | ⟨o, -, hf, -⟩
    · rw [hu] at hfails
      cases hfails
    · exact hf
  obtain ⟨k, hk⟩ := react_total setup (f := fun i => i.receive (.setting key v)) (l := m)
    hfaultless (settingChanged_commands key v)
  refine ⟨k, hk, ?_⟩
  have ht := (react_ok hk).timing
  simp only [receive] at ht
  have hrefresh : ∀ t : Slots TimerKind × Queue τ Job,
      ((Request.arm .refresh (TimeScale.ofNat debounce)).serve setup.reaches m.deadline
        t).1.isArmed .refresh = true := by
    intro t
    rw [isArmed_serve_arm]
    simp
  cases settingChanged_taken (i := m.host.owner.indicator) key v with
  | refused hun | unknown hun =>
    rw [hu] at hun
    cases hun
  | stored _ _ hd =>
    rw [ha] at hd
    cases hd
  | turnedOn _ _ _ _ _ ho =>
    rw [ho] at ht
    exact (congrArg (fun t => t.1.isArmed .refresh) ht).trans (hrefresh _)
  | changed _ _ _ _ _ ho =>
    rw [ho] at ht
    exact (congrArg (fun t => t.1.isArmed .refresh) ht).trans (hrefresh _)

theorem isArmed_of_rearm (reaches : Nat → Bool) (due : τ → τ) (t : Slots TimerKind × Queue τ Job)
    (others : List TimerKind) (wanted : Bool) (delay : τ) :
    ((Request.disarm .tick :: others.map Request.disarm ++
        if wanted then [Request.arm .tick delay] else []).foldl
      (fun t q => Request.serve reaches due t q) t).1.isArmed .tick = wanted := by
  have hoff : ∀ (others : List TimerKind) (t : Slots TimerKind × Queue τ Job),
      t.1.isArmed .tick = false →
        ((others.map Request.disarm).foldl (fun t q => Request.serve reaches due t q) t).1.isArmed
          .tick = false := by
    intro others
    induction others with
    | nil => exact fun t ht => ht
    | cons kind others ih =>
      intro t ht
      apply ih
      exact (Slots.isArmed_disarm ..).trans (by rw [ht]; rfl)
  have hfirst : ((Request.disarm .tick).serve reaches due t).1.isArmed .tick = false :=
    (Slots.isArmed_disarm ..).trans (by simp)
  rw [List.cons_append, List.foldl_cons, List.foldl_append]
  cases wanted with
  | false => exact hoff others _ hfirst
  | true =>
    refine (isArmed_serve_arm ..).trans ?_
    simp

theorem tick_armed_of_tick (ha : l.host.owner.indicator.attached = true)
    (h : tick setup l = .ok () k) :
    k.host.owner.timers.isArmed .tick = k.host.owner.indicator.settings.enabled := by
  rcases tick_ok h with ⟨hd, -⟩ | ⟨-, reading, hr⟩
  · rw [ha] at hd
    cases hd
  · obtain ⟨rates, sampler, -, -, hstate, ho⟩ := tick_of_attached ha hr.faultless
    obtain ⟨ρ, hρ⟩ := render_state (i := l.host.owner.indicator.sampled rates sampler)
    have ht := hr.timing
    rw [ho] at ht
    rw [hr.state, hstate, hρ]
    exact (congrArg (fun t => t.1.isArmed .tick) ht).trans
      (isArmed_of_rearm setup.reaches l.deadline (timing l) [.refresh] _ _)

theorem tick_armed_of_refresh {token : Nat} (ha : l.host.owner.indicator.attached = true)
    (h : fireOwn setup token .refresh l = .ok () k) :
    k.host.owner.timers.isArmed .tick = k.host.owner.indicator.settings.enabled := by
  obtain ⟨m, rfl, hr⟩ := fireOwn_ok h
  obtain ⟨-, hstate, ho⟩ := refresh_of_attached ha hr.faultless
  obtain ⟨ρ, hρ⟩ := render_state (i := l.host.owner.indicator)
  have ht := hr.timing
  rw [ho] at ht
  rw [hr.state, hstate, hρ]
  exact (congrArg (fun t => t.1.isArmed .tick) ht).trans
    (isArmed_of_rearm setup.reaches l.deadline _ [] _ _)

/-- An attached indicator whose tick cannot read the counters passes the fault on, whether the
tick was called or its timer fired and whatever was armed. It keeps what it rendered, its
sample and the baseline of its sampler, and so does everything else but its timers: neither is
armed any more. Then a recognised setting arms the refresh, and a later tick or refresh that
comes to its end arms the next tick, if the indicator is enabled. -/
theorem failed_tick_stands_still (ha : l.host.owner.indicator.attached = true)
    (hr : readCounters setup l = .ok (.error f) l) {act : Act τ Unit}
    (hact : act = tick setup ∨ ∃ token, act = fireOwn setup token .tick) :
    ∃ m, act l = .error (.fault f) m ∧ GivenUp l m ∧
      (∀ setup key v s, l.host.owner.indicator.settings.apply l.host.owner.indicator.nesting key v =
          .ok (some s) →
        ∃ k, listen setup (.setting key v) m = .ok () k ∧
          k.host.owner.timers.isArmed .refresh = true) ∧
      ∀ (setup : Setup τ) (p k : Running τ), p.host.owner.indicator.attached = true →
        (tick setup p = .ok () k ∨ ∃ token, fireOwn setup token .refresh p = .ok () k) →
          k.host.owner.timers.isArmed .tick = k.host.owner.indicator.settings.enabled := by
  have hfailed : ∃ m, act l = .error (.fault f) m ∧ GivenUp l m := by
    rcases hact with rfl | ⟨token, rfl⟩
    · exact tick_gives_up ha hr
    · exact fired_tick_gives_up token ha hr
  obtain ⟨m, hm, hg⟩ := hfailed
  refine ⟨m, hm, hg, ?_, ?_⟩
  · intro setup key v s hu
    apply refresh_armed_of_setting
    · rw [hg.indicator]
      exact ha
    · rw [hg.indicator]
      exact hu
  · rintro setup p k hp (hk | ⟨token, hk⟩)
    · exact tick_armed_of_tick hp hk
    · exact tick_armed_of_refresh hp hk

def unitSetting : Delivery := .setting "networktraffic.unittype" (.int 1)

def ticking : Running Rat := (Session.runThrough (attach secluded) (made { enabled := true } {})).1

def awaiting : Running Rat := (Session.runThrough (listen secluded unitSetting) ticking).1

def stranded : Running Rat :=
  { awaiting with host.owner.counters := .scripted 0 0 (some "no counters") }

theorem stranded_attached : stranded.host.owner.indicator.attached = true := by decide +kernel

theorem stranded_unreadable :
    readCounters secluded stranded = .ok (.error (.reported "no counters")) stranded :=
  readCounters_scripted rfl

theorem stranded_reached : Reached stranded := by
  have hmade : Reached (made { enabled := true } {}) := .fresh rfl rfl
  have hticking : Reached ticking := by
    apply Reached.operation secluded .attach hmade
    exact Session.runThrough_unit (by decide +kernel)
  have hawaiting : Reached awaiting := by
    apply Reached.operation secluded (.deliver unitSetting) hticking
    exact Session.runThrough_unit (by decide +kernel)
  exact reached_counting hawaiting _

theorem stranded_stands_still :
    ∃ m, tick secluded stranded = .error (.fault (.reported "no counters")) m ∧
      m.host.owner.timers.isArmed .tick = false := by
  obtain ⟨m, hm, hg, -, -⟩ :=
    failed_tick_stands_still stranded_attached stranded_unreadable (Or.inl rfl)
  exact ⟨m, hm, hg.idle .tick⟩

/-- Not every tick that fails leaves the next tick armed and an armed refresh in place. -/
theorem failed_tick_not_atomic :
    ¬ ∀ (setup : Setup Rat) (l m : Running Rat) (f : Fault), Reached l →
      l.host.owner.indicator.attached = true →
      readCounters setup l = .ok (.error f) l → tick setup l = .error (.fault f) m →
        m.host.owner.indicator.rendered = l.host.owner.indicator.rendered ∧
        m.host.owner.indicator.sample = l.host.owner.indicator.sample ∧
        m.host.owner.indicator.sampler = l.host.owner.indicator.sampler ∧
        (m.host.owner.indicator.settings.enabled = true →
          m.host.owner.timers.isArmed .tick = true) ∧
        (l.host.owner.timers.isArmed .refresh = true →
          m.host.owner.timers.isArmed .refresh = true) := by
  intro h
  obtain ⟨m, hm, hg⟩ := tick_gives_up stranded_attached stranded_unreadable
  obtain ⟨-, -, -, htick, hrefresh⟩ :=
    h secluded stranded m _ stranded_reached stranded_attached stranded_unreadable hm
  have hon : stranded.host.owner.indicator.settings.enabled = true := by decide +kernel
  have hlost := htick (by rw [hg.indicator]; exact hon)
  rw [hg.idle] at hlost
  cases hlost

end TrafficIndicator.Panel
