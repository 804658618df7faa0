import TrafficIndicator.Proofs.ScreenHistory
import TrafficIndicator.Proofs.ScreenInvariant

/-!
What the screen was told last is not what the indicator remembers of it: the memory is emptied
when the indicator is detached or enabled anew, and the screen goes on showing. Nor do flags
that change on a detached indicator reach the screen. Still, an attached indicator that is
locked or has no connection has told the screen to hide, even while a refresh is awaited.
-/
namespace TrafficIndicator.Panel

open Loop Indicator

variable {τ : Type} [TimeScale τ]

/-- The states between the operations of runs in which none halts. Any timer may fire at any
time, and whatever does not belong to the indicator or the screen may change in between, the
timers and what cancelling them does included. -/
inductive Displayed : Running τ → Prop where
  | fresh {l : Running τ} (hi : l.host.owner.indicator = l.host.owner.indicator.fresh) :
      Displayed l
  | operation {l l' : Running τ} (setup : Setup τ) (op : Operation) (h : Displayed l)
      (hop : op.act setup l = .ok () l') : Displayed l'
  | fired {l l' : Running τ} (setup : Setup τ) (e : Entry τ Job) (h : Displayed l)
      (he : fire setup e l = .ok () l') : Displayed l'
  | around {l l' : Running τ} (h : Displayed l)
      (hi : l'.host.owner.indicator = l.host.owner.indicator)
      (hs : l'.host.owner.screen = l.host.owner.screen) : Displayed l'

abbrev Coupled (l : Running τ) : Prop := Continues [] l

theorem displayed_coupled {l : Running τ} (h : Displayed l) : Coupled l := by
  induction h with
  | fresh hi => exact ⟨[], .fresh hi⟩
  | operation setup op h hop ih => exact (continued_operation setup op).keeps _ _ _ hop ih
  | fired setup e h he ih => exact (continued_fire setup e).keeps _ _ _ he ih
  | around h hi hs ih => exact ih.around hi hs

def Barred (i : Indicator τ) : Prop := i.locked = true ∨ i.connected = false

omit [TimeScale τ] in
theorem shouldShow_of_barred {i : Indicator τ} (h : Barred i) : i.shouldShow = false := by
  rw [shouldShow]
  rcases h with h | h
  · simp [h]
  · simp [h]

def Veiled (p : Panel τ) : Prop :=
  p.indicator.attached = true → Barred p.indicator →
    lastSent .visible p.screen.sent = some (.visible false)

omit [TimeScale τ] in
theorem veiled_of_detached {p : Panel τ} (h : p.indicator.attached = false) : Veiled p := by
  intro ha
  rw [h] at ha
  cases ha

theorem veiled_of_current {l : Running τ} (hc : Coupled l)
    (h : l.host.owner.indicator.attached = true → Current l.host.owner.indicator) :
    Veiled l.host.owner := by
  intro ha hb
  obtain ⟨marks, htold⟩ := hc
  apply htold.coherent.last .visible
  rw [Rendered.command?, (h ha).visible, shouldShow_of_barred hb]
  rfl

omit [TimeScale τ] in
theorem lastSent_append {f : Field} {sent cs : List Command} (h : ∀ c ∈ cs, c.field ≠ f) :
    lastSent f (sent ++ cs) = lastSent f sent := by
  have hnone : cs.filter (fun c => decide (c.field = f)) = [] := by
    rw [List.filter_eq_nil_iff]
    intro c hc
    simpa using h c hc
  rw [lastSent, List.filter_append, hnone, List.append_nil]
  rfl

/-- A reaction that neither attaches, bars nor unbars the indicator, and tells the screen
nothing of being seen. -/
theorem veiled_of_aside {setup : Setup τ} {f : Indicator τ → Reaction τ} {l l' : Running τ}
    {u : Unit} (h : react setup f l = .ok u l')
    (hf : ∀ c ∈ (f l.host.owner.indicator).commands, c.field ≠ .visible)
    (hi : let i := l.host.owner.indicator
      let j := (f i).state
      j.attached = i.attached ∧ j.locked = i.locked ∧ j.connected = i.connected)
    (hv : Veiled l.host.owner) : Veiled l'.host.owner := by
  obtain ⟨ha, hl, hc⟩ := hi
  intro ha' hb'
  rw [react_sent h, lastSent_append hf]
  rw [(react_ok h).state] at ha' hb'
  rw [Barred, hl, hc] at hb'
  exact hv (ha.symm.trans ha') hb'

omit [TimeScale τ] in
/-- A tint that is shown, or kept for later, is the only thing the screen hears of. -/
theorem tintChanged_commands {i : Indicator τ} (color : Value) (pinned : Bool) :
    ∀ c ∈ (i.tintChanged color pinned).commands, c.field ≠ .visible := by
  have hshow : ∀ j : Indicator τ, ∀ c ∈ j.showTint.commands, c.field ≠ .visible := by
    intro j
    rw [showTint]
    split <;> simp [Request.command?, Command.field]
  rw [tintChanged]
  split
  · simp [Request.command?]
  · dsimp only
    split
    · exact hshow _
    · simp

theorem listen_preserves_veiled {setup : Setup τ} {d : Delivery} {l l' : Running τ} {u : Unit}
    (h : listen setup d l = .ok u l') (hc : Coupled l') (hv : Veiled l.host.owner) :
    Veiled l'.host.owner := by
  have hr := react_ok h
  cases d with
  | setting key v =>
    apply veiled_of_aside h _ _ hv
    · intro c hmem
      rw [receive, settingChanged_commands] at hmem
      cases hmem
    · dsimp only [receive]
      cases settingChanged_taken (i := l.host.owner.indicator) key v with
      | refused _ hrefused => rw [hrefused]; exact ⟨rfl, rfl, rfl⟩
      | unknown _ _ hs => rw [hs]; exact ⟨rfl, rfl, rfl⟩
      | stored _ _ _ hs => rw [hs]; exact ⟨rfl, rfl, rfl⟩
      | turnedOn _ _ _ _ hs => rw [hs]; exact ⟨rfl, rfl, rfl⟩
      | changed _ _ _ _ hs => rw [hs]; exact ⟨rfl, rfl, rfl⟩
  | tint color pinned =>
    apply veiled_of_aside h (tintChanged_commands color pinned) _ hv
    obtain ⟨-, p, t, c, hs⟩ := tintChanged_spec (i := l.host.owner.indicator) color pinned
    dsimp only [receive]
    rw [hs]
    exact ⟨rfl, rfl, rfl⟩
  | connection b =>
    apply veiled_of_current hc
    obtain ⟨-, ⟨ρ, hρ⟩, hcurrent⟩ := connectionChanged_spec hr.faultless
    rw [hr.state]
    intro ha
    rw [receive, hρ] at ha
    exact hcurrent ha
  | lock b =>
    apply veiled_of_current hc
    obtain ⟨-, ⟨ρ, hρ⟩, hcurrent⟩ := lockChanged_spec hr.faultless
    rw [hr.state]
    intro ha
    rw [receive, hρ] at ha
    exact hcurrent ha

theorem tick_preserves_veiled {setup : Setup τ} {l l' : Running τ} {u : Unit}
    (h : tick setup l = .ok u l') (hc : Coupled l') (hv : Veiled l.host.owner) :
    Veiled l'.host.owner := by
  rcases tick_ok h with ⟨-, rfl⟩ | ⟨ha, reading, hr⟩
  · exact hv
  · obtain ⟨rates, sampler, -, hf, hstate, -⟩ := tick_of_attached ha hr.faultless
    apply veiled_of_current hc
    intro _
    rw [hr.state, hstate]
    exact render_current hf

/-- The flags that the indicator was left with while it was detached, and those that its
collaborators deliver, count only in the render pass that ends the attachment. -/
theorem attach_preserves_veiled {setup : Setup τ} {l l' : Running τ} {u : Unit}
    (h : attach setup l = .ok u l') (hc : Coupled l') (hv : Veiled l.host.owner) :
    Veiled l'.host.owner := by
  rcases attach_ok h with ⟨-, rfl⟩ | ⟨-, j, m, -, -, hr⟩
  · exact hv
  · obtain ⟨hf, hstate, -⟩ := settleIn_spec hr.faultless
    apply veiled_of_current hc
    intro _
    rw [hr.state, hstate]
    exact render_current hf

theorem detach_veils {setup : Setup τ} {l l' : Running τ} {u : Unit}
    (h : detach setup l = .ok u l') : Veiled l'.host.owner := by
  obtain ⟨m, k, -, -, hr⟩ := detach_ok h
  apply veiled_of_detached
  rw [hr.state]
  exact leave_spec.2.2

theorem operation_preserves_veiled {setup : Setup τ} {op : Operation} {l l' : Running τ}
    {u : Unit} (h : op.act setup l = .ok u l') (hc : Coupled l') (hv : Veiled l.host.owner) :
    Veiled l'.host.owner := by
  cases op with
  | attach => exact attach_preserves_veiled h hc hv
  | detach => exact detach_veils h
  | tick => exact tick_preserves_veiled h hc hv
  | deliver d => exact listen_preserves_veiled h hc hv

theorem refresh_preserves_veiled {setup : Setup τ} {l l' : Running τ}
    (h : Reacted setup Indicator.refresh l l') (hc : Coupled l') : Veiled l'.host.owner := by
  cases ha : l.host.owner.indicator.attached with
  | false =>
    apply veiled_of_detached
    rw [h.state, refresh_of_detached ha]
    exact ha
  | true =>
    obtain ⟨hf, hstate, -⟩ := refresh_of_attached ha h.faultless
    apply veiled_of_current hc
    intro _
    rw [h.state, hstate]
    exact render_current hf

theorem fireOwn_preserves_veiled {setup : Setup τ} {token : Nat} {kind : TimerKind}
    {l l' : Running τ} {u : Unit} (h : fireOwn setup token kind l = .ok u l') (hc : Coupled l')
    (hv : Veiled l.host.owner) : Veiled l'.host.owner := by
  obtain ⟨m, rfl, h⟩ := fireOwn_ok h
  cases kind with
  | tick => exact tick_preserves_veiled h hc hv
  | refresh => exact refresh_preserves_veiled h hc

/-- A poll tells the indicator what it found, between doings of the station that leave the
indicator and the screen alone. -/
theorem fire_preserves_veiled {setup : Setup τ} {e : Entry τ Job} {l l' : Running τ} {u : Unit}
    (h : fire setup e l = .ok u l') (hl : Coupled l) (hv : Veiled l.host.owner) :
    Veiled l'.host.owner := by
  have hc := (continued_fire setup e).keeps _ _ _ h hl
  rw [fire, Station.fire] at h
  cases hj : e.job with
  | own kind =>
    rw [hj] at h
    exact fireOwn_preserves_veiled h hc hv
  | poll feed id =>
    rw [hj] at h
    have hown : Station.OfOwner (fun m : Running τ => Coupled m ∧ Veiled m.host.owner)
        (fun _ _ => True) := by
      refine ⟨fun m m' ho hm => ?_, fun _ _ _ => trivial⟩
      rw [ho]
      exact ⟨hm.1.around (by rw [ho]) (by rw [ho]), hm.2⟩
    have hlisten : ∀ d, Keeps (fun m => Coupled m ∧ Veiled m.host.owner) (listen setup d) := by
      intro d m u m' hm hkept
      have hcoupled := ((lasting_continues []).listen setup d).keeps _ _ _ hm hkept.1
      exact ⟨hcoupled, listen_preserves_veiled hm hcoupled hkept.2⟩
    have hkept : Coupled l' ∧ Veiled l'.host.owner :=
      keeps_bind (Station.ends_onSlots hown _).keeps
        (fun _ => (hown.ofDoings.poll (fun d => (hlisten d).ends) feed id).keeps)
        l u l' h ⟨hl, hv⟩
    exact hkept.2

theorem displayed_veiled {l : Running τ} (h : Displayed l) : Veiled l.host.owner := by
  induction h with
  | fresh hi =>
    apply veiled_of_detached
    rw [hi]
    rfl
  | operation setup op h hop ih =>
    have hc := displayed_coupled (h.operation setup op hop)
    exact operation_preserves_veiled hop hc ih
  | fired setup e h he ih => exact fire_preserves_veiled he (displayed_coupled h) ih
  | around h hi hs ih =>
    rw [Veiled, hi, hs]
    exact ih

/-- Between operations, the last thing that the screen was told about being seen is to hide,
if the indicator is attached and it is locked or has no connection. This holds whether or not
a refresh is awaited, and whatever the indicator remembers of the screen. -/
theorem hidden_of_barred {l : Running τ} (h : Displayed l)
    (ha : l.host.owner.indicator.attached = true)
    (hb : l.host.owner.indicator.locked = true ∨ l.host.owner.indicator.connected = false) :
    lastSent .visible l.host.owner.screen.sent = some (.visible false) :=
  displayed_veiled h ha hb

/-- Seen, then detached, which tells the screen nothing, then locked and attached anew, and
enabled once more, so that the memory is empty and a refresh is awaited. -/
theorem hidden_after_lock :
    ∃ l : Running Rat, Displayed l ∧ l.host.owner.indicator.rendered.visible = none ∧
      l.host.owner.timers.isArmed .refresh = true ∧
      lastSent .visible l.host.owner.screen.sent = some (.visible false) := by
  let switch (b : Bool) : Operation := .deliver (.setting "networktraffic.enabled" (.bool b))
  let go (l : Running Rat) (op : Operation) := (Session.runThrough (op.act secluded) l).1
  have hgo : ∀ l op, Displayed l → (Session.runThrough (op.act secluded) l).2 = none →
      Displayed (go l op) := by
    intro l op hl hop
    exact hl.operation secluded op (Session.runThrough_unit hop)
  let l₀ : Running Rat := made { enabled := true } {}
  let l₁ := go l₀ .attach
  let l₂ := go l₁ .detach
  let l₃ := go l₂ (.deliver (.lock true))
  let l₄ := go l₃ .attach
  let l₅ := go l₄ (switch false)
  let l₆ := go l₅ (switch true)
  have h₁ : Displayed l₁ := hgo l₀ _ (.fresh rfl) (by decide +kernel)
  have h₂ : Displayed l₂ := hgo l₁ _ h₁ (by decide +kernel)
  have h₃ : Displayed l₃ := hgo l₂ _ h₂ (by decide +kernel)
  have h₄ : Displayed l₄ := hgo l₃ _ h₃ (by decide +kernel)
  have h₅ : Displayed l₅ := hgo l₄ _ h₄ (by decide +kernel)
  have h₆ : Displayed l₆ := hgo l₅ _ h₅ (by decide +kernel)
  refine ⟨l₆, h₆, by decide +kernel, by decide +kernel, ?_⟩
  exact hidden_of_barred h₆ (by decide +kernel) (Or.inl (by decide +kernel))

end TrafficIndicator.Panel
