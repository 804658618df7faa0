import TrafficIndicator.Proofs.Detached
import TrafficIndicator.Proofs.RenderPasses
import TrafficIndicator.Proofs.SignalWatch

/-!
An indicator counts as attached before its collaborators deliver, so that the connection and
the lock each make a render pass of their own, the connection first. An indicator that was not
locked before is shown as soon as the connection is there, and hidden again when the lock is
delivered. Nothing else is seen of an attachment that cannot be seen at its end.
-/
namespace TrafficIndicator

namespace Loop

variable {κ ω α : Type} {τ : Type} {P N : Loop τ κ ω → Prop}

/-- What is known of any ending may tell more where the activity came to its end. -/
theorem endsIn_of_after {x : Act τ κ ω α} {l : Loop τ κ ω} (h : N (after x l))
    (hok : ∀ a m, x l = .ok a m → N m → P m) : EndsIn P (fun _ => N) (x l) := by
  rw [after] at h
  cases hx : x l with
  | ok a m =>
    rw [hx] at h
    exact hok a m hx h
  | error e m =>
    rw [hx] at h
    exact h

end Loop

namespace Station

open Loop

variable {τ ρ : Type} {setup : Setup τ} {listen : Listener τ ρ}
  {P Q : Loop τ Job (Station τ ρ) → Prop} {R : Halt → Loop τ Job (Station τ ρ) → Prop}

theorem ask_signal (s : Signal) (hp : OfReading P R) (l : Loop τ Job (Station τ ρ)) (h : P l) :
    Yields (fun seen m => (∃ b, seen = .flag b) ∧ P m) R (ask setup listen s.feed l) := by
  have hflag : ∀ (o : Observed τ Bool) m, P m →
      Yields (fun seen k => (∃ b, seen = .flag b) ∧ P k) R
        ((do return .flag (← observe o) : Act τ ρ Sighting) m) := fun o m hm =>
    yields_bind (ends_observe hp o m hm).yields fun b k hk => ⟨⟨b, rfl⟩, hk⟩
  cases s with
  | connection => exact hflag _ l h
  | lock =>
    rw [Signal.feed, ask]
    split
    · exact hflag _ _ (hp.asked l _ h)
    · exact hflag _ l h

variable [TimeScale τ]

theorem OfDoings.watchSettings (hp : OfDoings P R)
    (h : ∀ key v, Ends P R (listen (.setting key v))) :
    Ends P R (Station.watch setup listen .settingsFile) := by
  refine ends_bind ends_get fun l => ?_
  rw [if_pos rfl]
  refine ends_bind (ends_modifyHost fun l hl => hp.memory l _ hl) fun _ => ?_
  refine ends_bind (ends_modifyHost fun l hl => hp.watches l _ hl) fun _ => ?_
  refine ends_bind (ends_ask hp.toOfReading h .settingsFile) fun seen => ?_
  -- its changes were told while it was read
  have htell : tell listen .settingsFile seen = pure () := by
    cases seen <;> rfl
  refine ends_bind (hp.modifyWatch _ _) fun _ => ?_
  rw [htell]
  exact ends_bind (ends_pure _) fun _ => ends_bind (hp.armPoll setup _ _) fun _ => ends_pure _

/-- A watch of a signal delivers it once: what held before the delivery holds until then, and
what holds after it from then on. -/
theorem endsIn_watch_signal (s : Signal) (hp : OfDoings P R) (hq : OfDoings Q R)
    (h : ∀ b m, P m → EndsIn Q R (listen (s.delivery b) m)) (l : Loop τ Job (Station τ ρ))
    (hl : P l) : EndsIn Q R (watch setup listen s.feed l) := by
  have htell : ∀ b, tell listen s.feed (.flag b) = listen (s.delivery b) := by
    intro b
    cases s <;> rfl
  rw [watch, bind_get, if_neg s.feed_ne_settingsFile]
  refine endsIn_bind (M := P) (hp.watches l _ hl) fun _ m hm => ?_
  refine (ask_signal s hp.toOfReading m hm).endsIn fun seen m hm => ?_
  obtain ⟨⟨b, rfl⟩, hm⟩ := hm
  refine endsIn_bind (hp.modifyWatch _ _ m hm) fun _ m hm => ?_
  rw [htell]
  refine endsIn_bind (h b m hm) fun _ m hm => ?_
  exact ends_bind (hq.armPoll setup s.feed _) (fun _ => ends_pure _) m hm

end Station

namespace Panel

open Loop Indicator

variable {τ : Type} [TimeScale τ]

structure Dormant (i : Indicator τ) : Prop where
  bare : Bare i
  sample : i.attached = false → i.sample = .idle

theorem state_of_silent (setup : Setup τ) {f : Indicator τ → Reaction τ} {l : Running τ}
    (hc : (f l.host.owner.indicator).commands = []) :
    (after (react setup f) l).host.owner.indicator = (f l.host.owner.indicator).state := by
  rcases indicator_after_react setup f l with hi | ⟨p, hp, hpc, -⟩
  · exact hi
  · exact absurd (List.filterMap_eq_nil_iff.mp hc _ (List.mem_map_of_mem hp)) hpc

theorem reacting_dormant :
    Reacting (fun l : Running τ => Dormant l.host.owner.indicator)
      fun _ l => Dormant l.host.owner.indicator where
  reacts setup s l hfit h := by
    refine endsIn_iff_after.mpr ⟨fun hd => ?_, fun hd => ?_⟩
    · have hsilent : (s.reaction l.host.owner.indicator).commands = [] := by
        rcases s.paced_or_silent l.host.owner.indicator with hp | hs
        · have hmode : SameMode l.host.owner.indicator
              (after (react setup s.reaction) l).host.owner.indicator := mode_after_react hp
          exact Stimulus.silent_of_detached hfit (hmode.attached.symm.trans hd)
        · exact hs.commands
      rw [state_of_silent setup hsilent] at hd ⊢
      exact s.bare hfit h.bare hd
    · cases renewal_of_detached setup s l hd with
      | renewed hr hb hs => exact hs
      | kept hr hs => exact hs.sample.trans (h.sample (detached_of_kept hr hd))
  around l l' hi _ h := by
    rw [hi]
    exact h
  halts _ _ h := h

theorem Attained.dormant {l : Running τ} (h : Attained l) : Dormant l.host.owner.indicator := by
  induction h with
  | fresh hi =>
    refine ⟨fun _ => ?_, fun _ => ?_⟩ <;> rw [hi] <;> rfl
  | operation h setup op ih => exact endsIn_iff_after.mp (reacting_dormant.operation setup op _ ih)
  | fired h setup e ih => exact endsIn_iff_after.mp (reacting_dormant.fire setup e _ ih)
  | around h hi ih =>
    rw [hi]
    exact ih

variable {i j k : Indicator τ} {told : Bool} {cs ds : List Command}

/-- An indicator that was not locked, `i`, has become one that nothing but the lock hides, `j`,
and the connection was told before the lock was. -/
structure Flashed (told : Bool) (i j : Indicator τ) : Prop where
  told : told = true
  unlocked : i.locked = false
  locked : j.locked = true
  connected : j.connected = true
  enabled : j.settings.enabled = true
  unhidden : j.settings.autoHide = false

/-- Among the commands that were sent is one to show the indicator just if the screen was last
told so, or if it flashed. -/
def Sighted (told : Bool) (i j : Indicator τ) (cs : List Command) : Prop :=
  .visible true ∈ cs ↔ j.rendered.visible = some true ∨ Flashed told i j

omit [TimeScale τ] in
theorem Flashed.rendering (ρ : Rendered) :
    Flashed told i { j with rendered := ρ } ↔ Flashed told i j := by
  constructor
  · intro h
    exact ⟨h.told, h.unlocked, h.locked, h.connected, h.enabled, h.unhidden⟩
  · intro h
    exact ⟨h.told, h.unlocked, h.locked, h.connected, h.enabled, h.unhidden⟩

omit [TimeScale τ] in
theorem Sighted.pass {shown : Bool} (h : Sighted told i j cs) {j' : Indicator τ}
    (hd : Dressed j' shown k ds) (hj : j'.rendered = j.rendered)
    (hshown : j.rendered.visible = some true → shown = true ∨ Flashed told i j')
    (hflash : Flashed told i j → Flashed told i j')
    (hback : Flashed told i j' → Flashed told i j ∨ j.rendered.visible = some true) :
    Sighted told i k (cs ++ ds) := by
  obtain ⟨⟨ρ, rfl⟩, htold, hvisible⟩ := hd
  rw [Sighted] at h ⊢
  rw [List.mem_append, Flashed.rendering, h]
  dsimp only at hvisible ⊢
  rw [hj] at hvisible
  constructor
  · rintro ((hv | hf) | hmem)
    · rcases hvisible with ⟨-, hρ⟩ | ⟨-, hρ⟩
      · rcases hshown hv with rfl | hf
        · exact Or.inl hρ
        · exact Or.inr hf
      · exact Or.inl (hρ.trans hv)
    · exact Or.inr (hflash hf)
    · rcases hvisible with ⟨-, hρ⟩ | ⟨hnone, -⟩
      · rw [htold true hmem]
        exact Or.inl hρ
      · exact absurd hmem (hnone true)
  · rintro (hv | hf)
    · rcases hvisible with ⟨hmem, hρ⟩ | ⟨-, hρ⟩
      · obtain rfl : shown = true := Option.some.inj (hρ.symm.trans hv)
        exact Or.inr hmem
      · exact Or.inl (Or.inl (hρ.symm.trans hv))
    · rcases hback hf with hf | hv
      · exact Or.inl (Or.inr hf)
      · exact Or.inl (Or.inl hv)

/-- Attached, with no sample and the lock as it was; what is to be seen was told once the
connection was heard of. -/
structure Joined (heard : Bool) (i j : Indicator τ) (cs : List Command) : Prop where
  attached : j.attached = true
  sample : j.sample = .idle
  locked : j.locked = i.locked
  visible : j.rendered.visible = if heard then some j.shouldShow else none
  sent : .visible true ∈ cs ↔ j.rendered.visible = some true

structure Ready (told : Bool) (i j : Indicator τ) (cs : List Command) : Prop where
  visible : j.rendered.visible = none ∨ j.rendered.visible = some j.shouldShow
  sighted : Sighted told i j cs

omit [TimeScale τ] in
theorem not_flashed_of_locked (h : j.locked = i.locked) : ¬Flashed told i j := by
  intro hf
  have hlocked : i.locked = true := h.symm.trans hf.locked
  exact absurd (hf.unlocked.symm.trans hlocked) Bool.false_ne_true

omit [TimeScale τ] in
theorem Sighted.sent (h : Sighted told i j cs) (hl : j.locked = i.locked) :
    .visible true ∈ cs ↔ j.rendered.visible = some true := by
  rw [Sighted, or_iff_left (not_flashed_of_locked hl)] at h
  exact h

omit [TimeScale τ] in
theorem Joined.seen_iff {heard : Bool} (h : Joined heard i j cs) :
    j.rendered.visible = some true ↔ heard = true ∧ j.shouldShow = true := by
  rw [h.visible]
  cases heard <;> simp

omit [TimeScale τ] in
theorem Joined.sighted {heard : Bool} (h : Joined heard i j cs) : Sighted told i j cs := by
  rw [Sighted, or_iff_left (not_flashed_of_locked h.locked)]
  exact h.sent

omit [TimeScale τ] in
theorem Joined.ready (h : Joined told i j cs) : Ready told i j cs where
  visible := by
    rw [h.visible]
    split
    · exact Or.inr rfl
    · exact Or.inl rfl
  sighted := h.sighted

omit [TimeScale τ] in
theorem shouldShow_of_idle (h : j.sample = .idle) :
    j.shouldShow =
      (j.settings.enabled && j.connected && !j.locked && !j.settings.autoHide) := by
  rw [shouldShow, h]
  simp [RateSample.idle]

def Since (l : Running τ) (Q : Indicator τ → List Command → Prop) (m : Running τ) : Prop :=
  ∃ cs, m.host.owner.screen.sent = l.host.owner.screen.sent ++ cs ∧ Q m.host.owner.indicator cs

section Phases

variable {setup : Setup τ} {l m : Running τ} {Q Q' : Indicator τ → List Command → Prop}

omit [TimeScale τ] in
theorem ofOwner_since (h : ∀ j cs, Q j cs → Q' j cs) :
    Station.OfOwner (Since l Q) fun _ => Since l Q' where
  same m m' ho hm := by
    rw [Since, ho]
    exact hm
  halts _ m hm := by
    obtain ⟨cs, hsent, hq⟩ := hm
    exact ⟨cs, hsent, h _ cs hq⟩

/-- A reaction that renders tells what follows for the sight of the indicator. -/
theorem sighted_react {f : Indicator τ → Reaction τ} {shown : Bool}
    (hm : m.host.owner.screen.sent = l.host.owner.screen.sent ++ cs)
    (hs : Sighted told i m.host.owner.indicator cs)
    (hd : Dresses j (f m.host.owner.indicator))
    (hj : j.rendered = m.host.owner.indicator.rendered)
    (hp : Paced m.host.owner.indicator (f m.host.owner.indicator))
    (hc : ∀ b, .visible b ∈ (f m.host.owner.indicator).commands → b = shown)
    (hshown : m.host.owner.indicator.rendered.visible = some true →
      shown = true ∨ Flashed told i j)
    (hflash : Flashed told i m.host.owner.indicator → Flashed told i j)
    (hback : Flashed told i j → Flashed told i m.host.owner.indicator ∨
      m.host.owner.indicator.rendered.visible = some true) :
    Since l (Sighted told i) (after (react setup f) m) := by
  obtain ⟨ds, hsent, hdressed⟩ := dressed_react setup hd hj hp hc
  refine ⟨cs ++ ds, ?_, hs.pass hdressed hj hshown hflash hback⟩
  rw [hsent, hm, List.append_assoc]

theorem joined_setting (key : LooseText) (v : Value) :
    Lasts (Since l (Joined false i)) (listen setup (.setting key v)) := by
  rintro m ⟨cs, hsent, h⟩
  have hc := settingChanged_commands (i := m.host.owner.indicator) key v
  obtain ⟨halt, hup⟩ := upshot_react setup (fun i => i.receive (.setting key v)) m
  obtain ⟨ds, hds, htold⟩ := hup.sent
  have hnothing : ds = [] := List.prefix_nil.mp (hc ▸ hds)
  rw [hnothing, List.append_nil] at htold
  have hnone : m.host.owner.indicator.rendered.visible = none := h.visible
  have hjoined : Joined false i (m.host.owner.indicator.settingChanged key v).state cs := by
    cases settingChanged_taken (i := m.host.owner.indicator) key v with
    | refused hu hr =>
      rw [hr]
      exact h
    | unknown hu hf hs ho =>
      rw [hs]
      exact h
    | stored hu hf ha hs ho => exact absurd (ha.symm.trans h.attached) Bool.false_ne_true
    | turnedOn hu hf ha ht hs ho =>
      rw [hs]
      refine ⟨h.attached, rfl, h.locked, rfl, ?_⟩
      rw [h.sent, hnone]
      rfl
    | changed hu hf ha ht hs ho =>
      rw [hs]
      exact ⟨h.attached, h.sample, h.locked, hnone, h.sent⟩
  refine endsIn_iff_after.mpr ⟨cs, htold.trans hsent, ?_⟩
  have hstate := state_of_silent setup
    (f := fun i => i.receive (.setting key v)) (l := m) hc
  rw [listen, hstate]
  exact hjoined

theorem endsIn_connection (b : Bool) (m : Running τ) (h : Since l (Joined false i) m) :
    EndsIn (Since l (Joined true i)) (fun _ => Since l (Sighted told i))
      (listen setup (.connection b) m) := by
  obtain ⟨cs, hsent, h⟩ := h
  have hunseen : m.host.owner.indicator.rendered.visible ≠ some true := by
    intro hv
    exact absurd (h.seen_iff.mp hv).1 Bool.false_ne_true
  have hsteady : ¬Flashed told i { m.host.owner.indicator with connected := b } :=
    not_flashed_of_locked h.locked
  have hafter : Since l (Sighted told i)
      (after (react setup fun i => i.receive (.connection b)) m) :=
    sighted_react hsent h.sighted (dresses_connectionChanged b) rfl (paced_connectionChanged b)
      (fun _ hc => visible_of_connectionChanged hc) (fun hv => absurd hv hunseen)
      (fun hf => absurd hf (not_flashed_of_locked h.locked)) fun hf => absurd hf hsteady
  refine endsIn_of_after hafter ?_
  rintro ⟨⟩ n hn ⟨ds, htold, hs⟩
  have hr := react_ok hn
  obtain ⟨-, ⟨ρ, hρ⟩, hcurrent⟩ := connectionChanged_spec hr.faultless
  have hstate := hr.state.trans hρ
  have hlocked : n.host.owner.indicator.locked = i.locked := by
    rw [hstate]
    exact h.locked
  refine ⟨ds, htold, ?_, ?_, hlocked, ?_, ?_⟩
  · rw [hstate]
    exact h.attached
  · rw [hstate]
    exact h.sample
  · rw [hr.state]
    exact (hcurrent h.attached).visible
  · exact hs.sent hlocked

theorem joined_tint (color : Value) (pinned : Bool) :
    Ends (Since l (Joined told i)) (fun _ => Since l (Sighted told i))
      (listen setup (.tint color pinned)) := by
  rintro m ⟨cs, hsent, h⟩
  obtain ⟨p, t, hdresses⟩ := dresses_tintChanged (i := m.host.owner.indicator) color pinned
  have hsteady : ¬Flashed told i { m.host.owner.indicator with pinned := p, tint := t } :=
    not_flashed_of_locked h.locked
  have hafter : Since l (Sighted told i)
      (after (react setup fun i => i.receive (.tint color pinned)) m) :=
    sighted_react hsent h.sighted hdresses rfl (paced_tintChanged color pinned)
      (fun _ hc => absurd rfl (tintChanged_commands color pinned _ hc))
      (fun hv => Or.inl (h.seen_iff.mp hv).2)
      (fun hf => absurd hf (not_flashed_of_locked h.locked)) fun hf => absurd hf hsteady
  refine endsIn_of_after hafter ?_
  rintro ⟨⟩ n hn ⟨ds, htold, hs⟩
  obtain ⟨-, p', t', c, hstate⟩ :=
    tintChanged_spec (i := m.host.owner.indicator) color pinned
  have hend := (react_ok hn).state.trans hstate
  have hlocked : n.host.owner.indicator.locked = i.locked := by
    rw [hend]
    exact h.locked
  refine ⟨ds, htold, ?_, ?_, hlocked, ?_, ?_⟩
  · rw [hend]
    exact h.attached
  · rw [hend]
    exact h.sample
  · rw [hend]
    exact h.visible
  · exact hs.sent hlocked

theorem endsIn_lock (b : Bool) (m : Running τ) (h : Since l (Joined told i) m) :
    EndsIn (Since l (Ready told i)) (fun _ => Since l (Sighted told i))
      (listen setup (.lock b) m) := by
  obtain ⟨cs, hsent, h⟩ := h
  have hbefore := shouldShow_of_idle h.sample
  have hnow := shouldShow_of_idle (j := { m.host.owner.indicator with locked := b }) h.sample
  dsimp only at hnow
  have hhides : m.host.owner.indicator.rendered.visible = some true →
      shouldShow { m.host.owner.indicator with locked := b } = true ∨
        Flashed told i { m.host.owner.indicator with locked := b } := by
    intro hv
    obtain ⟨htold, hs⟩ := h.seen_iff.mp hv
    rw [hbefore] at hs
    simp only [Bool.and_eq_true, Bool.not_eq_true'] at hs
    obtain ⟨⟨⟨henabled, hconnected⟩, hunlocked⟩, hunhidden⟩ := hs
    cases b with
    | true =>
      exact Or.inr ⟨htold, h.locked.symm.trans hunlocked, rfl, hconnected, henabled, hunhidden⟩
    | false =>
      refine Or.inl ?_
      rw [hnow, henabled, hconnected, hunhidden]
      rfl
  have hback : Flashed told i { m.host.owner.indicator with locked := b } →
      m.host.owner.indicator.rendered.visible = some true := by
    rintro ⟨htold, hunlocked, -, hconnected, henabled, hunhidden⟩
    refine h.seen_iff.mpr ⟨htold, ?_⟩
    dsimp only at hconnected henabled hunhidden
    rw [hbefore, henabled, hconnected, h.locked, hunlocked, hunhidden]
    rfl
  have hafter : Since l (Sighted told i)
      (after (react setup fun i => i.receive (.lock b)) m) :=
    sighted_react hsent h.sighted (dresses_lockChanged b) rfl (paced_lockChanged b)
      (fun _ hc => visible_of_renderIfAttached hc) hhides
      (fun hf => absurd hf (not_flashed_of_locked h.locked)) fun hf => Or.inr (hback hf)
  refine endsIn_of_after hafter ?_
  rintro ⟨⟩ n hn ⟨ds, htold, hs⟩
  have hr := react_ok hn
  obtain ⟨-, -, hcurrent⟩ := lockChanged_spec hr.faultless
  refine ⟨ds, htold, Or.inr ?_, hs⟩
  rw [hr.state]
  exact (hcurrent h.attached).visible

theorem endsIn_settleIn (armed : Bool) (m : Running τ) (h : Since l (Ready told i) m) :
    EndsIn (Since l (Sighted told i)) (fun _ => Since l (Sighted told i))
      (react setup (fun i => i.settleIn armed) m) := by
  obtain ⟨cs, hsent, h⟩ := h
  have hshown : m.host.owner.indicator.rendered.visible = some true →
      m.host.owner.indicator.shouldShow = true := by
    intro hv
    rcases h.visible with hnone | hsome
    · rw [hnone] at hv
      cases hv
    · exact Option.some.inj (hsome.symm.trans hv)
  have hafter : Since l (Sighted told i) (after (react setup fun i => i.settleIn armed) m) :=
    sighted_react hsent h.sighted (dresses_settleIn armed) rfl (paced_settleIn armed)
      (fun _ hc => visible_of_settleIn hc) (fun hv => Or.inl (hshown hv)) id Or.inl
  exact endsIn_iff_after.mpr hafter

theorem joined_openSettings (feed : SettingsFeed) :
    Ends (Since l (Joined false i)) (fun _ => Since l (Sighted told i))
      (openSettings setup feed) := by
  have howner : Station.OfOwner (Since l (Joined false i)) fun _ => Since l (Sighted told i) :=
    ofOwner_since fun _ _ h => h.sighted
  have hsetting : ∀ key v, Ends (Since l (Joined false i)) (fun _ => Since l (Sighted told i))
      (listen setup (.setting key v)) := fun key v m h =>
    (joined_setting key v m h).imp (fun _ hm => hm) fun e _ hm => howner.halts e _ hm
  cases feed with
  | fixed entries =>
    exact ends_bind (ends_forM entries fun e _ => hsetting _ _) fun _ => ends_pure _
  | file =>
    exact ends_bind (howner.ofDoings.watchSettings hsetting) fun _ => ends_pure _

/-- A signal is delivered once, and a poll that is armed beside shows nothing. -/
theorem endsIn_openState (s : Station.Signal) (hq : ∀ j cs, Q j cs → Sighted told i j cs)
    (hq' : ∀ j cs, Q' j cs → Sighted told i j cs)
    (h : ∀ b m, Since l Q m →
      EndsIn (Since l Q') (fun _ => Since l (Sighted told i)) (listen setup (s.delivery b) m))
    (state : StateFeed) (m : Running τ) (hm : Since l Q m) :
    EndsIn (Since l Q') (fun _ => Since l (Sighted told i)) ((do
      remember (← openState setup s.feed s.delivery state) : Act τ Unit) m) := by
  refine endsIn_bind (M := Since l Q') ?_ fun ids m hm => hm
  cases state with
  | fixed b => exact endsIn_bind (h b m hm) fun _ m hm => hm
  | polled =>
    refine endsIn_bind (M := Since l Q') ?_ fun _ m hm => hm
    exact Station.endsIn_watch_signal s (ofOwner_since hq).ofDoings (ofOwner_since hq').ofDoings h
      m hm

theorem endsIn_openCollaborators (m : Running τ) (h : Since l (Joined false i) m) :
    let told := setup.collaborators.connectivity.isSome
    EndsIn (Since l (Ready told i)) (fun _ => Since l (Sighted told i))
      (openCollaborators setup m) := by
  intro told
  rw [openCollaborators_eq]
  refine endsIn_bind (ends_mapM _ (fun feed _ => joined_openSettings feed) m h) fun ids m h => ?_
  refine endsIn_bind (M := Since l (Joined false i)) h fun _ m h => ?_
  refine endsIn_bind (M := Since l (Joined told i)) ?_ fun _ m h => ?_
  · dsimp only [told]
    cases setup.collaborators.connectivity with
    | none => exact h
    | some feed =>
      exact endsIn_openState .connection (fun _ _ h => h.sighted) (fun _ _ h => h.sighted)
        endsIn_connection feed m h
  refine endsIn_bind (ends_elim (fun c _ => joined_tint c.1 c.2) m h) fun _ m h => ?_
  cases setup.collaborators.lock with
  | none =>
    obtain ⟨cs, hsent, h⟩ := h
    exact ⟨cs, hsent, h.ready⟩
  | some feed =>
    exact endsIn_openState .lock (fun _ _ h => h.sighted) (fun _ _ h => h.sighted)
      endsIn_lock feed m h

theorem joined_join (setup : Setup τ) (h : Dormant l.host.owner.indicator)
    (hd : l.host.owner.indicator.attached = false) :
    ∃ m, react setup Indicator.join l = .ok () m ∧
      Since l (Joined false l.host.owner.indicator) m := by
  have hsilent := silent_join (i := l.host.owner.indicator)
  obtain ⟨m, hm⟩ := react_total setup (f := Indicator.join) rfl hsilent.commands
  have hstate : m.host.owner.indicator = { l.host.owner.indicator with attached := true } :=
    (react_ok hm).state.trans join_spec.1
  have hbare : l.host.owner.indicator.rendered.visible = none := by rw [h.bare hd]
  refine ⟨m, hm, [], ?_, ?_⟩
  · rw [react_sent hm, hsilent.commands]
  · rw [hstate]
    refine ⟨rfl, h.sample hd, rfl, hbare, ?_⟩
    dsimp only
    rw [hbare]
    exact ⟨fun hmem => absurd hmem List.not_mem_nil, nofun⟩

theorem sighted_attach (h : Dormant l.host.owner.indicator)
    (hd : l.host.owner.indicator.attached = false) :
    let told := setup.collaborators.connectivity.isSome
    Since l (Sighted told l.host.owner.indicator) (after (attach setup) l) := by
  intro told
  refine endsIn_iff_after.mp ?_
  rw [attach, bind_get, hd]
  obtain ⟨m, hm, hjoined⟩ := joined_join setup h hd
  change EndsIn _ _ ((react setup Indicator.join >>= fun _ => _) l)
  rw [bind_of_ok hm]
  refine endsIn_bind (endsIn_openCollaborators m hjoined) fun _ m hready => ?_
  exact endsIn_settleIn _ m hready

end Phases

/-- Attaching a detached indicator shows it on the way just if it can be seen in the end, where
attaching ends or breaks off, or if it flashed: the connection was told before the lock, and but
for the lock the indicator is to be seen. Where attaching comes to its end, what can be seen is
what should be. -/
theorem shown_while_attaching {l : Running τ} (h : Attained l)
    (hd : l.host.owner.indicator.attached = false) (setup : Setup τ) :
    let m := after (attach setup) l
    (∃ sent, m.host.owner.screen.sent = l.host.owner.screen.sent ++ sent ∧
      (.visible true ∈ sent ↔ m.host.owner.indicator.rendered.visible = some true ∨
        Flashed setup.collaborators.connectivity.isSome l.host.owner.indicator
          m.host.owner.indicator)) ∧
      (attach setup l = .ok () m →
        m.host.owner.indicator.rendered.visible = some m.host.owner.indicator.shouldShow) := by
  intro m
  refine ⟨sighted_attach h.dormant hd, fun hm => ?_⟩
  rcases attach_ok hm with ⟨ha, -⟩ | ⟨-, j, k, hj, hk, hr⟩
  · exact absurd (hd.symm.trans ha) Bool.false_ne_true
  · obtain ⟨hrender, hstate, -⟩ := settleIn_spec hr.faultless
    rw [hr.state, hstate]
    exact (render_current hrender).visible

def behindLock : Setup Rat where
  station := { interval := fun _ => 1000 }
  collaborators := { connectivity := some (.fixed true), lock := some (.fixed true) }

/-- An enabled indicator that is attached behind the lock. -/
def lockedOut : Running Rat := after (attach behindLock) (made { enabled := true } {})

private theorem lockedOut_attached :
    attach behindLock (made { enabled := true } {}) = .ok () lockedOut := by
  have hends : (Session.runThrough (attach behindLock) (made { enabled := true } {})).2 = none := by
    decide +kernel
  have hrun := Session.runThrough_unit hends
  have hleft : lockedOut = _ := after_of_ok hrun
  rw [hleft]
  exact hrun

/-- The lock is found on only after the connection was shown: it flashes, and is hidden in the
end. -/
theorem shown_before_lock :
    ∃ l : Running Rat, Attained l ∧ l.host.owner.indicator.attached = false ∧
      attach behindLock l = .ok () lockedOut ∧
      ∃ sent, lockedOut.host.owner.screen.sent = l.host.owner.screen.sent ++ sent ∧
        .visible true ∈ sent ∧ lockedOut.host.owner.indicator.rendered.visible = some false := by
  have hmade : Attained (made { enabled := true } {}) := .fresh rfl
  obtain ⟨⟨sent, hsent, hshown⟩, hend⟩ := shown_while_attaching hmade rfl behindLock
  rw [← lockedOut] at hsent hshown hend
  have hflashed : Flashed true (made { enabled := true } {}).host.owner.indicator
      lockedOut.host.owner.indicator := by
    refine ⟨rfl, rfl, ?_, ?_, ?_, ?_⟩ <;> decide +kernel
  have hhidden : lockedOut.host.owner.indicator.shouldShow = false := by decide +kernel
  refine ⟨_, hmade, rfl, lockedOut_attached, sent, hsent, hshown.mpr (Or.inr hflashed), ?_⟩
  rw [hend lockedOut_attached, hhidden]

/-- What is shown while an indicator is attached need not be seen when it is attached. -/
theorem attaching_flashes :
    ¬∀ (setup : Setup Rat) (l m : Running Rat), Attained l →
      l.host.owner.indicator.attached = false → attach setup l = .ok () m →
      ∀ sent, m.host.owner.screen.sent = l.host.owner.screen.sent ++ sent →
        .visible true ∈ sent → m.host.owner.indicator.rendered.visible = some true := by
  intro h
  have hany : lockedOut.host.owner.screen.sent.any (·.same (.visible true)) = true := by
    decide +kernel
  obtain ⟨c, hmem, hc⟩ := List.any_eq_true.mp hany
  obtain rfl : c = .visible true := by
    cases c with
    | visible b => exact congrArg Command.visible (of_decide_eq_true hc)
    | text | icon | tint => cases hc
  have hseen := h behindLock (made { enabled := true } {}) lockedOut (.fresh rfl) rfl
    lockedOut_attached _ (List.nil_append _).symm hmem
  have hhidden : lockedOut.host.owner.indicator.rendered.visible = some false := by
    decide +kernel
  rw [hhidden] at hseen
  cases hseen

end Panel

end TrafficIndicator
