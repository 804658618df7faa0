import TrafficIndicator.Proofs.SampleHistory
import TrafficIndicator.Proofs.ScreenHistory
import TrafficIndicator.Proofs.SettingValues

/-!
Timers whose cancellation was lost still fire after an attachment has ended, and collaborators
may go on to deliver. Until it is attached again, the indicator does nothing about it: the
screen is told nothing, no timer is armed and the counters are not read. What a delivery says
is remembered, unless it is a setting that is nested too deep to be read.
-/
namespace TrafficIndicator

namespace Indicator

open Reaction

variable {τ : Type} [TimeScale τ] {i : Indicator τ}

theorem receive_of_detached (d : Delivery) (ha : i.attached = false) :
    (i.receive d).commands = [] ∧ (i.receive d).orders = [] ∧
      (i.receive d).state.attached = false ∧ (i.receive d).state.sampler = i.sampler := by
  cases d with
  | setting key v =>
    refine ⟨settingChanged_commands key v, ?_⟩
    rw [receive]
    cases settingChanged_taken (i := i) key v with
    | refused hu hr =>
      rw [hr]
      exact ⟨rfl, ha, rfl⟩
    | unknown hu hf hs ho =>
      rw [hs]
      exact ⟨ho, ha, rfl⟩
    | stored hu hf ha' hs ho =>
      rw [hs]
      exact ⟨ho, ha, rfl⟩
    | turnedOn hu hf ha' => exact absurd (ha.symm.trans ha') Bool.false_ne_true
    | changed hu hf ha' => exact absurd (ha.symm.trans ha') Bool.false_ne_true
  | connection b =>
    simp [receive, connectionChanged, renderIfAttached, ha, Request.command?]
  | tint color pinned =>
    rw [receive, tintChanged]
    split
    · exact ⟨by simp [Request.command?], by simp, ha, rfl⟩
    · simp [ha]
  | lock b => simp [receive, lockChanged, renderIfAttached, ha]

/-- Whether a delivery is nested within the limit of an indicator. Only settings are nested. -/
def Takes (i : Indicator τ) (d : Delivery) : Prop :=
  ∀ key v, d = .setting key v → v.fits i.nesting = true

/-- Only a setting that is nested too deep is refused, and nothing is changed then. -/
theorem settingChanged_fault (key : LooseText) (v : Value) :
    (i.settingChanged key v).fault = none ∨
      (i.settingChanged key v = i.failing .tooDeep ∧ ¬i.Takes (.setting key v)) := by
  rcases settingChanged_settings (i := i) key v with ⟨f, hu, hr⟩ | ⟨o, -, hf, -⟩
  · rcases i.settings.apply_eq i.nesting key v with hok | ⟨hdeep, hfits, -⟩
    · cases hu.symm.trans hok
    · cases hu.symm.trans hdeep
      refine Or.inr ⟨hr, fun ht => ?_⟩
      rw [ht key v rfl] at hfits
      cases hfits
  · exact Or.inl hf

theorem fault_of_detached {d : Delivery} (ha : i.attached = false) (ht : i.Takes d) :
    (i.receive d).fault = none := by
  cases d with
  | setting key v => exact (settingChanged_fault key v).resolve_right fun h => h.2 ht
  | connection b => simp [receive, connectionChanged, renderIfAttached, ha]
  | tint color pinned =>
    rw [receive, tintChanged]
    split
    · rfl
    · simp [ha]
  | lock b => simp [receive, lockChanged, renderIfAttached, ha]

end Indicator

namespace Panel

open Loop Indicator

variable {τ : Type} [TimeScale τ]

theorem Stimulus.silent_of_detached {s : Stimulus τ} {i : Indicator τ} (hfit : s.Fits i)
    (ha : i.attached = false) : (s.reaction i).commands = [] := by
  cases s with
  | join => exact silent_join.commands
  | settleIn armed =>
    rw [Stimulus.Fits, ha] at hfit
    cases hfit
  | deliver d => exact (receive_of_detached d ha).1
  | tick reading =>
    rw [Stimulus.reaction, Indicator.tick, ha]
    rfl
  | refresh =>
    rw [Stimulus.reaction, refresh_of_detached ha]
    rfl
  | leave => exact silent_leave.commands

theorem Stimulus.rendered_of_detached {s : Stimulus τ} {i : Indicator τ} (hfit : s.Fits i)
    (ha : i.attached = false) : (s.reaction i).state.rendered = i.rendered := by
  rcases s.paced_or_silent i with hp | hs
  · have he := emitted_of_edged hp.edged
    have hnone : sends (s.reaction i).steps = [] := Stimulus.silent_of_detached hfit ha
    rw [hnone] at he
    generalize (s.reaction i).state.rendered = ρ at he ⊢
    cases he
    rfl
  · rw [hs.rendered, if_neg]
    simp [resets, ha]

def tickBy (read : Act τ (Except Fault (Reading τ))) (setup : Setup τ) : Act τ Unit := do
  if (← get).host.owner.indicator.attached then
    let reading ← read
    react setup fun i => i.tick reading

def fireOwnBy (read : Act τ (Except Fault (Reading τ))) (setup : Setup τ) (token : Nat)
    (kind : TimerKind) : Act τ Unit := do
  onTimers fun s q => (s.release kind token, q)
  match kind with
  | .tick => tickBy read setup
  | .refresh => react setup Indicator.refresh

def Operation.actBy (read : Act τ (Except Fault (Reading τ))) (setup : Setup τ) :
    Operation → Act τ Unit
  | .tick => tickBy read setup
  | op => op.act setup

theorem fireOwnBy_readCounters (setup : Setup τ) :
    fireOwnBy (readCounters setup) setup = fireOwn setup := rfl

theorem Operation.actBy_readCounters (setup : Setup τ) (op : Operation) :
    op.actBy (readCounters setup) setup = op.act setup := by
  cases op <;> rfl

private theorem steps_silent (setup : Setup τ) {r : Reaction τ} (hc : r.commands = [])
    (ho : r.orders = []) (l : Running τ) :
    ∃ m i, (r.steps.forM fun (state, request) => do
        modifyPanel fun p => { p with indicator := state }
        perform setup request : Act τ PUnit) l = .ok ⟨⟩ m ∧ m.queue = l.queue ∧
      m.host.owner = { l.host.owner with indicator := i } := by
  let Same (m : Running τ) : Prop := m.queue = l.queue ∧
    ∃ i, m.host.owner = { l.host.owner with indicator := i }
  have hnotes : ∀ s ∈ r.steps, ∃ n, s.2 = .note n := by
    intro s hs
    have hmem : s.2 ∈ r.requests := List.mem_map_of_mem hs
    have hcommand := List.filterMap_eq_nil_iff.mp hc _ hmem
    have horder := List.filter_eq_nil_iff.mp ho _ hmem
    generalize s.2 = r at hcommand horder
    cases r with
    | send c => cases hcommand
    | arm | disarm => exact absurd rfl horder
    | note n => exact ⟨n, rfl⟩
  have hsteps : Ends Same (fun _ _ => False) (r.steps.forM fun (state, request) => do
      modifyPanel fun p => { p with indicator := state }
      perform setup request : Act τ PUnit) := by
    refine ends_forM _ fun s hs => ?_
    obtain ⟨n, hn⟩ := hnotes s hs
    dsimp only
    rw [hn]
    refine ends_bind (ends_modifyHost ?_) fun _ => ends_modify fun m hm => hm
    rintro m ⟨hq, i, hi⟩
    exact ⟨hq, s.1, by rw [hi]⟩
  obtain ⟨m, hm⟩ := (hsteps l ⟨rfl, _, rfl⟩).total fun _ _ hfalse => hfalse
  obtain ⟨hq, i, hi⟩ : Same m := hsteps.keeps l _ m hm ⟨rfl, _, rfl⟩
  exact ⟨m, i, hm, hq, hi⟩

/-- A reaction without commands and orders changes the indicator and leaves notes. -/
theorem react_silent (setup : Setup τ) {f : Indicator τ → Reaction τ} {l : Running τ}
    (hc : (f l.host.owner.indicator).commands = [])
    (ho : (f l.host.owner.indicator).orders = []) :
    ∃ l', l'.queue = l.queue ∧
      l'.host.owner = { l.host.owner with indicator := (f l.host.owner.indicator).state } ∧
      react setup f l = match (f l.host.owner.indicator).fault with
        | none => .ok () l'
        | some e => .error (.fault e) l' := by
  obtain ⟨m, i, hm, hq, hi⟩ := steps_silent setup hc ho l
  refine ⟨withIndicator m (f l.host.owner.indicator).state, hq, ?_, ?_⟩
  · rw [withIndicator, hi]
  · rw [react, bind_get, bind_of_ok hm]
    cases (f l.host.owner.indicator).fault <;> rfl

omit [TimeScale τ] in
/-- Ending watches cannot halt, and leaves the owner of the station alone. -/
theorem unwatchAll_total (watches : List (List Nat)) (l : Running τ) :
    ∃ m, (watches.forM fun ids => ids.forM Station.unwatch : Act τ PUnit) l = .ok ⟨⟩ m ∧
      m.host.owner = l.host.owner := by
  have hends : Ends (fun m : Running τ => m.host.owner = l.host.owner) (fun _ _ => False)
      (watches.forM fun ids => ids.forM Station.unwatch : Act τ PUnit) :=
    ends_forM _ fun _ _ => ends_forM _ fun id _ =>
      Station.ends_unwatch (fun _ _ h => h) (fun _ _ h => h) (fun _ _ h => h) id
  obtain ⟨m, hm⟩ := (hends l rfl).total fun _ _ hfalse => hfalse
  exact ⟨m, hm, hends.keeps l _ m hm rfl⟩

theorem detach_total (setup : Setup τ) (l : Running τ) :
    ∃ l', detach setup l = .ok () l' ∧ l'.host.owner =
      { l.host.owner with
        indicator := l.host.owner.indicator.leave.state
        timers := {}
        watches := [] } := by
  let m : Running τ := { l with
    queue := (l.host.owner.timers.disarmAll setup.reaches l.queue).2
    host := { l.host with owner := { l.host.owner with
      timers := (l.host.owner.timers.disarmAll setup.reaches l.queue).1 } } }
  obtain ⟨k, hk, howner⟩ := unwatchAll_total m.host.owner.watches m
  let k' : Running τ :=
    { k with host := { k.host with owner := { k.host.owner with watches := [] } } }
  have hindicator : k'.host.owner.indicator = l.host.owner.indicator := by
    change k.host.owner.indicator = _
    rw [howner]
  have hleave := silent_leave (i := k'.host.owner.indicator)
  obtain ⟨l', -, hl, hl'⟩ := react_silent setup (f := Indicator.leave) (l := k')
    hleave.commands (leave_spec (i := k'.host.owner.indicator)).2.1
  rw [leave_fault] at hl'
  refine ⟨l', ?_, ?_⟩
  · have hm : onTimers (fun s q => s.disarmAll setup.reaches q) l = .ok () m := rfl
    rw [detach, bind_of_ok hm, bind_get, bind_of_ok hk]
    exact hl'
  · rw [hl, hindicator]
    change ({ k.host.owner with indicator := _, watches := [] } : Panel τ) = _
    have hempty : m.host.owner.timers = {} := Slots.disarmAll_empty _ _ l.queue
    rw [howner, ← hempty]

structure Still (l : Running τ) : Prop where
  detached : l.host.owner.indicator.attached = false
  baseline : l.host.owner.indicator.sampler.baseline = none
  timers : l.host.owner.timers = {}
  watches : l.host.owner.watches = []

variable {l m : Running τ} {read : Act τ (Except Fault (Reading τ))} {setup : Setup τ}

/-- An activity leaves a still loop still, queues nothing and tells the screen nothing. It comes to
its end where a condition holds. -/
structure Undisturbed (x : Act τ Unit) (m : Running τ) (ends : Prop) : Prop where
  still : Still (after x m)
  queue : (after x m).queue = m.queue
  screen : (after x m).host.owner.screen = m.host.owner.screen
  total : ends → x m = .ok () (after x m)

omit [TimeScale τ] in
theorem after_of_ok {x : Act τ Unit} {n : Running τ} (h : x m = .ok () n) : after x m = n := by
  rw [after, h]

omit [TimeScale τ] in
theorem Still.undisturbed (h : Still m) {x : Act τ Unit} (hx : x m = .ok () m) {ends : Prop} :
    Undisturbed x m ends := by
  have hafter := after_of_ok hx
  constructor
  · rwa [hafter]
  · rw [hafter]
  · rw [hafter]
  · intro _
    rwa [hafter]

theorem Still.deliver (h : Still m) (setup : Setup τ) (d : Delivery) :
    Undisturbed (listen setup d) m (m.host.owner.indicator.Takes d) := by
  obtain ⟨hc, ho, ha, hb⟩ := receive_of_detached (i := m.host.owner.indicator) d h.detached
  obtain ⟨n, hq, howner, hn⟩ := react_silent setup (f := fun i => i.receive d) hc ho
  have hafter : after (listen setup d) m = n := by
    rw [listen, after, hn]
    cases (m.host.owner.indicator.receive d).fault <;> rfl
  have hstill : Still n := by
    constructor
    · rw [howner]
      exact ha
    · rw [howner]
      exact (congrArg Sampler.baseline hb).trans h.baseline
    · rw [howner]
      exact h.timers
    · rw [howner]
      exact h.watches
  constructor
  · rwa [hafter]
  · rw [hafter, hq]
  · rw [hafter, howner]
  · intro ht
    rw [hafter, listen, hn, fault_of_detached h.detached ht]

omit [TimeScale τ] in
theorem Still.onTimers (h : Still m)
    {f : Slots TimerKind → Queue τ Job → Slots TimerKind × Queue τ Job}
    (hf : f {} m.queue = ({}, m.queue)) : Panel.onTimers f m = .ok () m := by
  rw [← h.timers] at hf
  rw [onTimers_ok, hf]

theorem Still.tick (h : Still m) : tickBy read setup m = .ok () m := by
  rw [tickBy, bind_get, h.detached]
  rfl

theorem Still.fireOwn (h : Still m) (token : Nat) (kind : TimerKind) :
    fireOwnBy read setup token kind m = .ok () m := by
  have hrelease := h.onTimers (f := fun s q => (s.release kind token, q)) rfl
  cases kind with
  | tick =>
    rw [fireOwnBy, bind_of_ok hrelease]
    exact h.tick
  | refresh =>
    rw [fireOwnBy, bind_of_ok hrelease, react, bind_get, refresh_of_detached h.detached]
    rfl

theorem Still.detach (h : Still m) : Panel.detach setup m = .ok () m := by
  have hdisarm := h.onTimers (f := fun s q => s.disarmAll setup.reaches q) rfl
  have hleave : m.host.owner.indicator.leave = m.host.owner.indicator.quiet := by
    rw [leave, h.detached]
    rfl
  have hforget : modifyPanel (fun p => { p with watches := [] }) m = .ok () m := by
    rw [modifyPanel_ok, ← h.watches]
  have hreact : react setup Indicator.leave m = .ok () m := by
    rw [react, bind_get, hleave]
    rfl
  have hnone : ([] : List (List Nat)).forM (fun ids => ids.forM Station.unwatch) m =
      .ok ⟨⟩ m := rfl
  rw [Panel.detach, bind_of_ok hdisarm, bind_get, h.watches, bind_of_ok hnone,
    bind_of_ok hforget, hreact]

/-- The loops of an indicator. Operations and timers may halt, cancellations may be lost, and
in between anything but the indicator may change. -/
inductive Attained : Running τ → Prop where
  | fresh {l : Running τ} (hi : l.host.owner.indicator = l.host.owner.indicator.fresh) :
      Attained l
  | operation {l : Running τ} (h : Attained l) (setup : Setup τ) (op : Operation) :
      Attained (after (op.act setup) l)
  | fired {l : Running τ} (h : Attained l) (setup : Setup τ) (e : Entry τ Job) :
      Attained (after (Panel.fire setup e) l)
  | around {l l' : Running τ} (h : Attained l)
      (hi : l'.host.owner.indicator = l.host.owner.indicator) : Attained l'

def Unbased (l : Running τ) : Prop :=
  l.host.owner.indicator.attached = false → l.host.owner.indicator.sampler.baseline = none

omit [TimeScale τ] in
/-- An indicator that was attached would have begun anew when it was detached. -/
theorem detached_of_kept {i j : Indicator τ} (hr : i.resets j = false) (ha : j.attached = false) :
    i.attached = false := by
  rw [resets, ha] at hr
  simpa using hr

omit [TimeScale τ] in
theorem Unbased.renewed (h : Unbased l)
    (hr : Renewal l.host.owner.indicator m.host.owner.indicator) : Unbased m := by
  intro ha
  cases hr with
  | renewed hr hb hs =>
    rw [hb]
    rfl
  | kept hr hs =>
    rw [hs.sampler]
    exact h (detached_of_kept hr ha)

/-- An event after which the indicator is detached began a new epoch or left sampler and sample
alone. -/
theorem renewal_of_detached (setup : Setup τ) (s : Stimulus τ) (l : Running τ)
    (hd : (after (react setup s.reaction) l).host.owner.indicator.attached = false) :
    Renewal l.host.owner.indicator (after (react setup s.reaction) l).host.owner.indicator := by
  cases s with
  | tick reading =>
    have hp := paced_tick (i := l.host.owner.indicator) reading
    have hmode : SameMode l.host.owner.indicator
        (after (react setup (Stimulus.tick reading).reaction) l).host.owner.indicator :=
      mode_after_react hp
    have ha := hmode.attached.symm.trans hd
    exact Renewal.of_steady (steady_tick_of_detached ha) hp
  | join | settleIn | deliver | refresh | leave => exact Stimulus.renewal setup l nofun

theorem lasting_unbased : Lasting (Unbased (τ := τ)) where
  reacts setup s l h hd := h.renewed (renewal_of_detached setup s l hd) hd
  around l l' hi _ h := by
    rw [Unbased, hi]
    exact h

theorem Attained.unbased (h : Attained l) : Unbased l := by
  induction h with
  | fresh hi =>
    intro _
    rw [hi]
    rfl
  | operation h setup op ih => exact endsIn_iff_after.mp (lasting_unbased.operation setup op _ ih)
  | fired h setup e ih => exact endsIn_iff_after.mp (lasting_unbased.fire setup e _ ih)
  | around h hi ih =>
    rw [Unbased, hi]
    exact ih

theorem Attained.advance (h : Attained l) (setup : Setup τ) (ms : τ) :
    Attained (after (Panel.advance setup ms) l) := by
  have hturns : Turns Attained (fun _ => Attained) (Panel.fire setup) := {
    fires l now e q h ht := by
      have hfired : Attained { l with queue := q } := h.around rfl
      exact endsIn_iff_after.mpr (hfired.fired setup e)
    idles l now q h ht := h.around rfl
    tires l h := h }
  have hends : Lasts Attained (Panel.advance setup ms) :=
    ends_advance hturns (fun l h => h.around rfl) (fun l t h => h.around rfl) _ ms
  exact endsIn_iff_after.mp (hends l h)

theorem Attained.still (h : Attained l) {l' : Running τ}
    (howner : l'.host.owner = { l.host.owner with
      indicator := l.host.owner.indicator.leave.state, timers := {}, watches := [] }) :
    Still l' := by
  refine ⟨?_, ?_, by rw [howner], by rw [howner]⟩
  · rw [howner]
    exact leave_spec.2.2
  · rw [howner]
    dsimp only
    rw [leave_spec.1]
    split
    · rfl
    · rename_i ha
      exact h.unbased (by simpa using ha)

/-- What may become of a loop before the indicator is attached again: the counters may be read
in any way, timers of the indicator may fire at any time, and in between anything may change
but the indicator, its slots and the screen. -/
inductive Aside (l : Running τ) : Running τ → Prop where
  | here : Aside l l
  | operation {m : Running τ} (h : Aside l m) (read : Act τ (Except Fault (Reading τ)))
      (setup : Setup τ) {op : Operation} (hop : op ≠ .attach) :
      Aside l (after (op.actBy read setup) m)
  | fired {m : Running τ} (h : Aside l m) (read : Act τ (Except Fault (Reading τ)))
      (setup : Setup τ) (token : Nat) (kind : TimerKind) :
      Aside l (after (fireOwnBy read setup token kind) m)
  | around {m n : Running τ} (h : Aside l m)
      (ho : ∃ c, n.host.owner = { m.host.owner with counters := c }) : Aside l n

/-- Whether what an operation delivers is nested within the limit of an indicator. -/
def Operation.Taken (i : Indicator τ) : Operation → Prop
  | .deliver d => i.Takes d
  | _ => True

/-- Every operation but an attachment queues nothing, and comes to its end unless it delivers what
is nested too deep. -/
theorem Still.operation (h : Still m) (read : Act τ (Except Fault (Reading τ)))
    (setup : Setup τ) {op : Operation} (hop : op ≠ .attach) :
    Undisturbed (op.actBy read setup) m (op.Taken m.host.owner.indicator) := by
  cases op with
  | attach => exact absurd rfl hop
  | detach => exact h.undisturbed h.detach
  | tick => exact h.undisturbed h.tick
  | deliver d => exact h.deliver setup d

theorem Aside.still (hs : Still l) (h : Aside l m) :
    Still m ∧ m.host.owner.screen = l.host.owner.screen := by
  induction h with
  | here => exact ⟨hs, rfl⟩
  | operation h read setup hop ih =>
    obtain ⟨hstill, -, hscreen, -⟩ := ih.1.operation read setup hop
    exact ⟨hstill, hscreen.trans ih.2⟩
  | fired h read setup token kind ih =>
    rw [after_of_ok (ih.1.fireOwn token kind)]
    exact ih
  | around h ho ih =>
    obtain ⟨c, hc⟩ := ho
    obtain ⟨⟨hd, hb, ht, hw⟩, hscreen⟩ := ih
    refine ⟨⟨?_, ?_, ?_, ?_⟩, ?_⟩ <;> rw [hc] <;> assumption

theorem aside_ofOwner : Station.OfOwner (Aside l) (fun _ => Aside l) where
  same _ _ ho h := h.around ⟨_, ho⟩
  halts _ _ h := h

/-- Timers of any kind may come up, polls of the collaborators included. -/
theorem aside_fire (setup : Setup τ) (e : Entry τ Job) :
    Lasts (Aside l) (Panel.fire setup e) := by
  rw [Panel.fire, Station.fire]
  cases e.job with
  | own kind =>
    rw [← fireOwnBy_readCounters]
    exact fun m h => endsIn_iff_after.mpr (h.fired _ setup _ kind)
  | poll feed id =>
    refine ends_bind (Station.ends_onSlots aside_ofOwner _) fun _ => ?_
    refine aside_ofOwner.ofDoings.poll (fun d m h => ?_) feed id
    have hop : Operation.deliver d ≠ .attach := by simp
    exact endsIn_iff_after.mpr (h.operation (readCounters setup) setup hop)

theorem aside_advance (setup : Setup τ) (ms : τ) : Lasts (Aside l) (Panel.advance setup ms) := by
  have hturns : Turns (Aside l) (fun _ => Aside l) (Panel.fire setup) := {
    fires m now e q h ht := aside_fire setup e _ (h.around ⟨_, rfl⟩)
    idles m now q h ht := h.around ⟨_, rfl⟩
    tires m h := h }
  exact ends_advance hturns (fun m h => h.around ⟨_, rfl⟩) (fun m t h => h.around ⟨_, rfl⟩) _ ms

/-- Detaching comes to its end from whatever state, and until the indicator is attached again
the screen is told nothing more, nothing is armed and there is no baseline. Whatever is asked of
the indicator, and whichever of its timers fires, queues nothing and comes to its end, unless it
is a setting that is nested too deep to be read. How the counters would be read does not matter,
even if that halts: they are not read. -/
theorem silent_until_attached (h : Attained l) (setup : Setup τ) :
    ∃ l', detach setup l = .ok () l' ∧ ∀ m, Aside l' m →
      (m.host.owner.screen = l.host.owner.screen ∧
        m.host.owner.indicator.sampler.baseline = none ∧
        ∀ kind, m.host.owner.timers.isArmed kind = false) ∧
      (∀ setup read op, op ≠ .attach →
        (after (Operation.actBy read setup op) m).queue = m.queue ∧
        (op.Taken m.host.owner.indicator →
          ∃ n, Operation.actBy read setup op m = .ok () n)) ∧
      (∀ setup read token kind, fireOwnBy read setup token kind m = .ok () m) ∧
      (∀ setup e, Aside l' (after (fire setup e) m)) ∧
      ∀ setup ms, Aside l' (after (advance setup ms) m) := by
  obtain ⟨l', hl', howner⟩ := detach_total setup l
  have hscreen : l'.host.owner.screen = l.host.owner.screen := by rw [howner]
  refine ⟨l', hl', fun m hm => ?_⟩
  obtain ⟨hstill, hsame⟩ := hm.still (h.still howner)
  refine ⟨⟨hsame.trans hscreen, hstill.baseline, fun kind => ?_⟩, ?_, ?_, ?_, ?_⟩
  · rw [hstill.timers]
    rfl
  · intro setup read op hop
    obtain ⟨-, hq, -, hends⟩ := hstill.operation read setup hop
    exact ⟨hq, fun ht => ⟨_, hends ht⟩⟩
  · intro setup read token kind
    exact hstill.fireOwn token kind
  · intro setup e
    exact endsIn_iff_after.mp (aside_fire setup e m hm)
  · intro setup ms
    exact endsIn_iff_after.mp (aside_advance setup ms m hm)

def heedless : Setup Rat := { secluded with reaches := fun _ => false }

/-- A tick and a refresh that were armed before the indicator was detached still wait then, and
fire in vain. -/
theorem stale_timers_in_vain :
    ∃ l l' : Running Rat, Attained l ∧ l.host.owner.indicator.attached = true ∧
      detach heedless l = .ok () l' ∧ l'.queue.liveCount = 2 ∧
      (after (advance heedless 5000) l').queue.liveCount = 0 ∧
      (after (advance heedless 5000) l').host.owner.screen = l.host.owner.screen := by
  let joined := after (Operation.act heedless .attach) (made { enabled := true } {})
  let later := after (advance heedless 2500) joined
  let d : Delivery := .setting "networktraffic.unittype" (.int 1)
  let changed := after (Operation.act heedless (.deliver d)) later
  have hmade : Attained (made { enabled := true } {}) := .fresh rfl
  have hjoined : Attained joined := hmade.operation heedless .attach
  have hlater : Attained later := hjoined.advance heedless 2500
  have hchanged : Attained changed := hlater.operation heedless (.deliver d)
  obtain ⟨l', hl', haside⟩ := silent_until_attached hchanged heedless
  obtain ⟨-, -, -, -, hadvance⟩ := haside l' .here
  obtain ⟨⟨hscreen, -⟩, -⟩ := haside _ (hadvance heedless 5000)
  have hleft : l' = after (detach heedless) changed := (after_of_ok hl').symm
  refine ⟨changed, l', hchanged, by decide +kernel, hl', ?_, ?_, hscreen⟩
  · rw [hleft]
    decide +kernel
  · rw [hleft]
    decide +kernel

end Panel

end TrafficIndicator
