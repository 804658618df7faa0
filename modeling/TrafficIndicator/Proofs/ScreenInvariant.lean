import TrafficIndicator.Proofs.PanelOperations

/-!
A changed setting is shown late, so the screen may lag behind the state, but only while a
refresh is armed. This holds whatever the cancellations of timers do, and whatever happens
beside the indicator and its slots.
-/
namespace TrafficIndicator.Panel

open Loop Indicator

variable {τ : Type} [TimeScale τ]

/-- The states between the operations of runs in which none halts. Each operation may find
other collaborators and other cancellations that reach the loop, any timer may fire at any
time, and everything beside the indicator and its slots may change. -/
inductive Reached : Running τ → Prop where
  | fresh {l : Running τ} (hi : l.host.owner.indicator = l.host.owner.indicator.fresh)
      (ht : l.host.owner.timers = {}) : Reached l
  | operation {l l' : Running τ} (setup : Setup τ) (op : Operation) (h : Reached l)
      (hop : op.act setup l = .ok () l') : Reached l'
  | fired {l l' : Running τ} (setup : Setup τ) (e : Entry τ Job) (h : Reached l)
      (he : fire setup e l = .ok () l') : Reached l'
  | around {l l' : Running τ} (h : Reached l)
      (hi : l'.host.owner.indicator = l.host.owner.indicator)
      (ht : l'.host.owner.timers = l.host.owner.timers) : Reached l'

def Settled (p : Panel τ) : Prop :=
  p.indicator.attached = true → p.timers.isArmed .refresh = false → Current p.indicator

omit [TimeScale τ] in
theorem settled_of_detached {p : Panel τ} (h : p.indicator.attached = false) : Settled p := by
  intro ha
  rw [h] at ha
  cases ha

omit [TimeScale τ] in
theorem settled_of_armed {p : Panel τ} (h : p.timers.isArmed .refresh = true) : Settled p := by
  intro _ hr
  rw [h] at hr
  cases hr

/-- A reaction that ends with a render pass, unless it leaves the indicator detached. -/
theorem Reacted.settled {setup : Setup τ} {f : Indicator τ → Reaction τ} {l l' : Running τ}
    (h : Reacted setup f l l')
    (hc : (f l.host.owner.indicator).state.attached = true →
      Current (f l.host.owner.indicator).state) : Settled l'.host.owner := by
  intro ha _
  rw [h.state] at ha ⊢
  exact hc ha

theorem listen_preserves_settled {setup : Setup τ} {d : Delivery} {l l' : Running τ} {u : Unit}
    (h : listen setup d l = .ok u l') (hs : Settled l.host.owner) : Settled l'.host.owner := by
  have hr := react_ok h
  cases d with
  | setting key v =>
    have ht := hr.timing
    have hstate := hr.state
    simp only [receive] at ht hstate
    have hrefresh : ∀ t : Slots TimerKind × Queue τ Job,
        ((Request.arm .refresh (TimeScale.ofNat debounce)).serve setup.reaches l.deadline
          t).1.isArmed .refresh = true := by
      intro t
      rw [isArmed_serve_arm]
      simp
    cases settingChanged_taken (i := l.host.owner.indicator) key v with
    | refused _ hrefused =>
      have hnone := hr.faultless
      rw [receive, hrefused] at hnone
      cases hnone
    | unknown hu hf hsame ho =>
      rw [ho] at ht
      have htimers : l'.host.owner.timers = l.host.owner.timers := congrArg Prod.fst ht
      rw [Settled, hstate, hsame, htimers]
      exact hs
    | stored hu hf ha hsame ho =>
      apply settled_of_detached
      rw [hstate, hsame]
      exact ha
    | turnedOn hu hf ha hon hsame ho =>
      rw [ho] at ht
      apply settled_of_armed
      exact (congrArg (fun t => t.1.isArmed .refresh) ht).trans (hrefresh _)
    | changed hu hf ha hon hsame ho =>
      rw [ho] at ht
      apply settled_of_armed
      exact (congrArg (fun t => t.1.isArmed .refresh) ht).trans (hrefresh _)
  | connection b =>
    obtain ⟨-, ⟨ρ, hρ⟩, hc⟩ := connectionChanged_spec hr.faultless
    apply hr.settled
    intro ha
    rw [receive, hρ] at ha
    exact hc ha
  | tint color pinned =>
    obtain ⟨ho, p, t, c, hstate⟩ := tintChanged_spec (i := l.host.owner.indicator) color pinned
    have htimers := hr.timers_of_nil ho
    have hi := hr.state.trans hstate
    intro ha hrf
    rw [htimers] at hrf
    rw [hi] at ha
    obtain ⟨hv, htext, hicon⟩ := hs ha hrf
    rw [hi]
    exact ⟨hv, htext, hicon⟩
  | lock b =>
    obtain ⟨-, ⟨ρ, hρ⟩, hc⟩ := lockChanged_spec hr.faultless
    apply hr.settled
    intro ha
    rw [receive, hρ] at ha
    exact hc ha

theorem tick_preserves_settled {setup : Setup τ} {l l' : Running τ} {u : Unit}
    (h : tick setup l = .ok u l') (hs : Settled l.host.owner) : Settled l'.host.owner := by
  rcases tick_ok h with ⟨-, rfl⟩ | ⟨ha, reading, hr⟩
  · exact hs
  · obtain ⟨rates, sampler, -, hf, hstate, -⟩ := tick_of_attached ha hr.faultless
    apply hr.settled
    intro _
    rw [hstate]
    exact render_current hf

/-- Attaching ends with a render pass, so it does not matter how far the deliveries on the
way left the screen behind. -/
theorem attach_preserves_settled {setup : Setup τ} {l l' : Running τ} {u : Unit}
    (h : attach setup l = .ok u l') (hs : Settled l.host.owner) : Settled l'.host.owner := by
  rcases attach_ok h with ⟨-, rfl⟩ | ⟨-, j, m, -, -, hr⟩
  · exact hs
  · obtain ⟨hf, hstate, -⟩ := settleIn_spec hr.faultless
    apply hr.settled
    intro _
    rw [hstate]
    exact render_current hf

theorem detach_settles {setup : Setup τ} {l l' : Running τ} {u : Unit}
    (h : detach setup l = .ok u l') : Settled l'.host.owner := by
  obtain ⟨m, k, -, -, hr⟩ := detach_ok h
  apply settled_of_detached
  rw [hr.state]
  exact leave_spec.2.2

theorem operation_preserves_settled {setup : Setup τ} {op : Operation} {l l' : Running τ}
    {u : Unit} (h : op.act setup l = .ok u l') (hs : Settled l.host.owner) :
    Settled l'.host.owner := by
  cases op with
  | attach => exact attach_preserves_settled h hs
  | detach => exact detach_settles h
  | tick => exact tick_preserves_settled h hs
  | deliver d => exact listen_preserves_settled h hs

theorem refresh_settles {setup : Setup τ} {l l' : Running τ}
    (h : Reacted setup Indicator.refresh l l') : Settled l'.host.owner := by
  cases ha : l.host.owner.indicator.attached with
  | false =>
    apply settled_of_detached
    rw [h.state, refresh_of_detached ha]
    exact ha
  | true =>
    obtain ⟨hf, hstate, -⟩ := refresh_of_attached ha h.faultless
    apply h.settled
    intro _
    rw [hstate]
    exact render_current hf

/-- A refresh that leaves its slot is followed by its render pass. A tick that leaves its slot
renders too, unless the indicator is detached. -/
theorem fireOwn_preserves_settled {setup : Setup τ} {token : Nat} {kind : TimerKind}
    {l l' : Running τ} {u : Unit} (h : fireOwn setup token kind l = .ok u l')
    (hs : Settled l.host.owner) : Settled l'.host.owner := by
  obtain ⟨m, rfl, h⟩ := fireOwn_ok h
  cases kind with
  | refresh => exact refresh_settles h
  | tick =>
    apply tick_preserves_settled h
    intro ha hr
    apply hs ha
    rw [Slots.isArmed_eq_false] at hr ⊢
    rw [Slots.token?_release, if_neg (by simp)] at hr
    exact hr

theorem fire_preserves_settled {setup : Setup τ} {e : Entry τ Job} {l l' : Running τ} {u : Unit}
    (h : fire setup e l = .ok u l') (hs : Settled l.host.owner) : Settled l'.host.owner := by
  have hlisten : ∀ d, Station.KeepsOwner Settled (listen setup d) := by
    intro d l u l' h hs
    exact listen_preserves_settled h hs
  rw [fire, Station.fire] at h
  cases hj : e.job with
  | own kind =>
    rw [hj] at h
    exact fireOwn_preserves_settled h hs
  | poll feed id =>
    rw [hj] at h
    refine Loop.keeps_bind (Station.keepsOwner_onSlots (Q := Settled) _) (fun _ => ?_) l u l' h hs
    exact Station.keepsOwner_poll hlisten feed id

theorem reached_settled {l : Running τ} (h : Reached l) : Settled l.host.owner := by
  induction h with
  | fresh hi ht =>
    apply settled_of_detached
    rw [hi]
    rfl
  | operation setup op h hop ih => exact operation_preserves_settled hop ih
  | fired setup e h he ih => exact fire_preserves_settled he ih
  | around h hi ht ih =>
    rw [Settled, hi, ht]
    exact ih

/-- Between operations, an attached indicator for which no refresh is armed shows itself
exactly when it should; then its label and its icon are those of the present sample. -/
theorem screen_current_of_reached {l : Running τ} (h : Reached l)
    (ha : l.host.owner.indicator.attached = true)
    (hr : l.host.owner.timers.isArmed .refresh = false) :
    let i := l.host.owner.indicator
    let shows := i.settings.enabled && i.connected && !i.locked &&
      (!i.settings.autoHide || decide (10000 < i.sample.rx) || decide (10000 < i.sample.tx))
    i.rendered.visible = some shows ∧
      (shows = true →
        (∃ label, Label.ofRate (Direction.dominant i.sample.rx i.sample.tx).2 i.settings.unit =
          .ok label ∧ i.rendered.text = some label) ∧
        i.rendered.icon = some (Direction.icon i.sample.rx i.sample.tx)) := by
  obtain ⟨hv, ht, hi⟩ := reached_settled h ha hr
  exact ⟨hv, fun hs => ⟨ht hs, hi hs⟩⟩

theorem Reached.operations (setup : Setup τ) {ops : List Operation} {l l' : Running τ} {u : PUnit}
    (h : Reached l) (hops : ops.forM (Operation.act setup) l = .ok u l') : Reached l' := by
  induction ops generalizing l with
  | nil =>
    cases hops
    exact h
  | cons op ops ih =>
    have hops' : (op.act setup >>= fun _ => ops.forM (Operation.act setup)) l = .ok u l' := hops
    obtain ⟨_, m, hm, hrest⟩ := bind_ok.mp hops'
    exact ih (h.operation setup op hm) hrest

theorem screen_current_after_reattach :
    ∃ l l' : Running Rat, l.host.owner.indicator.settings.enabled = false ∧
      reattaching.forM (Operation.act secluded) l = .ok ⟨⟩ l' ∧
      l'.host.owner.indicator.attached = true ∧
      l'.host.owner.timers.isArmed .refresh = false ∧
      l'.host.owner.indicator.rendered.visible = some true := by
  let l := made {} {}
  have hrun : ∃ l', reattaching.forM (Operation.act secluded) l = .ok ⟨⟩ l' ∧
      l'.host.owner.indicator.attached = true ∧
      l'.host.owner.timers.isArmed .refresh = false ∧ l'.host.owner.indicator.settings.enabled =
        true ∧ l'.host.owner.indicator.connected = true ∧ l'.host.owner.indicator.locked = false ∧
      l'.host.owner.indicator.settings.autoHide = false :=
    ⟨(Session.runThrough (reattaching.forM (Operation.act secluded)) l).1,
      Session.runThrough_unit (by decide +kernel), by decide +kernel⟩
  obtain ⟨l', hl', ha, hr, hon, hc, hk, hh⟩ := hrun
  obtain ⟨hv, -⟩ := screen_current_of_reached (.operations secluded (.fresh rfl rfl) hl') ha hr
  refine ⟨l, l', rfl, hl', ha, hr, hv.trans ?_⟩
  rw [hon, hc, hk, hh]
  rfl

end TrafficIndicator.Panel
