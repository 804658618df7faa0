import TrafficIndicator.Proofs.Handlers
import TrafficIndicator.Proofs.StationOwner
import TrafficIndicator.Proofs.TimerSlots
import TrafficIndicator.Session
import TrafficIndicator.Time.Scale

/-!
A reaction that is performed without a halt leaves its last state, carries out its orders on
the slots and the queue, and touches nothing else that the station holds. Each operation is
then one or more reactions.
-/
namespace TrafficIndicator

variable {τ : Type} [TimeScale τ]

def Request.serve (reaches : Nat → Bool) (due : τ → τ) (t : Slots TimerKind × Queue τ Job) :
    Request τ → Slots TimerKind × Queue τ Job
  | .arm kind delay => t.1.arm reaches kind (due delay) (.own kind) t.2
  | .disarm kind => t.1.disarm reaches kind t.2
  | _ => t

theorem Request.serve_of_not_order {reaches : Nat → Bool} {due : τ → τ}
    {t : Slots TimerKind × Queue τ Job} {r : Request τ} (h : r.isOrder = false) :
    r.serve reaches due t = t := by
  cases r with
  | send | note => rfl
  | arm | disarm => cases h

theorem Reaction.foldl_orders (r : Reaction τ) (reaches : Nat → Bool) (due : τ → τ)
    (t : Slots TimerKind × Queue τ Job) :
    r.orders.foldl (fun t q => q.serve reaches due t) t =
      r.requests.foldl (fun t q => q.serve reaches due t) t := by
  rw [orders]
  generalize r.requests = qs
  induction qs generalizing t with
  | nil => rfl
  | cons q qs ih =>
    rw [List.filter_cons, List.foldl_cons]
    cases hq : q.isOrder with
    | true => exact ih _
    | false => rw [if_neg (by simp), ih, Request.serve_of_not_order hq]

omit [TimeScale τ] in
theorem Session.runThrough_ok {ω α : Type} {act : Loop.Act τ Job ω α} {l : Loop τ Job ω}
    (h : (runThrough act l).2 = none) : ∃ a, act l = .ok a (runThrough act l).1 := by
  rw [runThrough, EStateM.run] at h ⊢
  cases ha : act l with
  | ok a m => exact ⟨a, rfl⟩
  | error e m => rw [ha] at h; cases h

omit [TimeScale τ] in
theorem Session.runThrough_unit {ω : Type} {act : Loop.Act τ Job ω Unit} {l : Loop τ Job ω}
    (h : (runThrough act l).2 = none) : act l = .ok () (runThrough act l).1 := by
  obtain ⟨⟨⟩, hl⟩ := runThrough_ok h
  exact hl

namespace Panel

open Loop

abbrev Running (τ : Type) := Loop τ Job (Station τ (Panel τ))

structure Beside (l l' : Running τ) : Prop where
  seconds : l'.seconds = l.seconds
  world : l'.host.world = l.host.world
  slots : l'.host.slots = l.host.slots
  polls : l'.host.watches = l.host.watches
  file : l'.host.file = l.host.file
  watches : l'.host.owner.watches = l.host.owner.watches
  counters : l'.host.owner.counters = l.host.owner.counters

omit [TimeScale τ] in
theorem Beside.refl (l : Running τ) : Beside l l := ⟨rfl, rfl, rfl, rfl, rfl, rfl, rfl⟩

omit [TimeScale τ] in
theorem Beside.trans {a b c : Running τ} (h : Beside a b) (k : Beside b c) : Beside a c where
  seconds := k.seconds.trans h.seconds
  world := k.world.trans h.world
  slots := k.slots.trans h.slots
  polls := k.polls.trans h.polls
  file := k.file.trans h.file
  watches := k.watches.trans h.watches
  counters := k.counters.trans h.counters

def withIndicator (l : Running τ) (i : Indicator τ) : Running τ :=
  { l with host := { l.host with owner := { l.host.owner with indicator := i } } }

omit [TimeScale τ] in
theorem beside_withIndicator (l : Running τ) (i : Indicator τ) : Beside l (withIndicator l i) :=
  ⟨rfl, rfl, rfl, rfl, rfl, rfl, rfl⟩

def timing (l : Running τ) : Slots TimerKind × Queue τ Job := (l.host.owner.timers, l.queue)

omit [TimeScale τ] in
theorem modifyPanel_ok {f : Panel τ → Panel τ} {l l' : Running τ} {u : Unit} :
    modifyPanel f l = .ok u l' ↔ l' = { l with host := { l.host with owner := f l.host.owner } } :=
  modify_ok

omit [TimeScale τ] in
theorem report_ok {ns : List (Notice τ)} {l l' : Running τ} {u : Unit} :
    Station.report ns l = .ok u l' ↔
      l' = { l with host := { l.host with notices := l.host.notices ++ ns } } :=
  modify_ok

theorem perform_ok {setup : Setup τ} {r : Request τ} {l l' : Running τ} {u : Unit}
    (h : perform setup r l = .ok u l') :
    l'.host.owner.indicator = l.host.owner.indicator ∧
      timing l' = r.serve setup.reaches l.deadline (timing l) ∧ Beside l l' := by
  cases r with
  | send c =>
    simp only [perform, bind_ok, get_ok, modifyPanel_ok] at h
    obtain ⟨_, l, ⟨rfl, rfl⟩, _, m, rfl, h⟩ := h
    cases hf : (l.host.owner.screen.take c).2 with
    | none =>
      rw [hf] at h
      obtain ⟨-, rfl⟩ := pure_ok.mp h
      exact ⟨rfl, rfl, ⟨rfl, rfl, rfl, rfl, rfl, rfl, rfl⟩⟩
    | some f =>
      rw [hf] at h
      exact (throw_ok.mp h).elim
  | arm kind delay =>
    simp only [perform, bind_ok, get_ok, onTimers, modify_ok] at h
    obtain ⟨_, _, ⟨rfl, rfl⟩, rfl⟩ := h
    exact ⟨rfl, rfl, ⟨rfl, rfl, rfl, rfl, rfl, rfl, rfl⟩⟩
  | disarm kind =>
    simp only [perform, onTimers, modify_ok] at h
    subst h
    exact ⟨rfl, rfl, ⟨rfl, rfl, rfl, rfl, rfl, rfl, rfl⟩⟩
  | note n =>
    rw [perform, report_ok] at h
    subst h
    exact ⟨rfl, rfl, ⟨rfl, rfl, rfl, rfl, rfl, rfl, rfl⟩⟩

structure Reacted (setup : Setup τ) (f : Indicator τ → Reaction τ) (l l' : Running τ) : Prop where
  faultless : (f l.host.owner.indicator).fault = none
  state : l'.host.owner.indicator = (f l.host.owner.indicator).state
  timing : timing l' = (f l.host.owner.indicator).orders.foldl
    (fun t q => q.serve setup.reaches l.deadline t) (timing l)
  beside : Beside l l'

private theorem steps_ok {setup : Setup τ} (steps : List (Indicator τ × Request τ))
    {l l' : Running τ} {u : PUnit}
    (h : (steps.forM fun (state, request) => do
        modifyPanel fun p => { p with indicator := state }
        perform setup request : Act τ PUnit) l = .ok u l') :
    timing l' = (steps.map Prod.snd).foldl
        (fun t q => q.serve setup.reaches l.deadline t) (timing l) ∧ Beside l l' := by
  induction steps generalizing l with
  | nil =>
    obtain ⟨-, rfl⟩ := pure_ok.mp h
    exact ⟨rfl, .refl _⟩
  | cons s steps ih =>
    obtain ⟨_, m, hm, h⟩ := bind_ok.mp h
    obtain ⟨_, k, hk, hm⟩ := bind_ok.mp hm
    have hk' : k = withIndicator l s.1 := modifyPanel_ok.mp hk
    subst hk'
    obtain ⟨-, ht, hb⟩ := perform_ok hm
    obtain ⟨ht', hb'⟩ := ih h
    have hlm : Beside l m := (beside_withIndicator l s.1).trans hb
    -- the clock stands still while a reaction is performed, so all delays start at one time
    have hdue : m.deadline = l.deadline := by
      funext d
      rw [deadline, deadline, now, now, hlm.seconds]
    refine ⟨?_, hlm.trans hb'⟩
    rw [ht', hdue, ht]
    rfl

theorem react_ok {setup : Setup τ} {f : Indicator τ → Reaction τ} {l l' : Running τ} {u : Unit}
    (h : react setup f l = .ok u l') : Reacted setup f l l' := by
  simp only [react, bind_ok, get_ok, modifyPanel_ok] at h
  obtain ⟨_, l, ⟨rfl, rfl⟩, _, m, hm, _, k, hk, h⟩ := h
  obtain ⟨ht, hb⟩ := steps_ok _ hm
  cases hf : (f l.host.owner.indicator).fault with
  | none =>
    rw [hf] at h
    obtain ⟨-, hl'⟩ := pure_ok.mp h
    have hend : l' = withIndicator m (f l.host.owner.indicator).state := hl'.trans hk
    subst hend
    refine ⟨hf, rfl, ?_, hb.trans (beside_withIndicator m _)⟩
    rw [Reaction.foldl_orders]
    exact ht
  | some e =>
    rw [hf] at h
    exact (throw_ok.mp h).elim

/-- An order to arm a timer leaves it armed, whatever its cancellations do. -/
theorem isArmed_serve_arm (reaches : Nat → Bool) (due : τ → τ)
    (t : Slots TimerKind × Queue τ Job) (kind other : TimerKind) (delay : τ) :
    ((Request.arm kind delay).serve reaches due t).1.isArmed other =
      (t.1.isArmed other || decide (other = kind)) :=
  Slots.isArmed_arm ..

theorem Reacted.timers_of_nil {setup : Setup τ} {f : Indicator τ → Reaction τ} {l l' : Running τ}
    (h : Reacted setup f l l') (ho : (f l.host.owner.indicator).orders = []) :
    l'.host.owner.timers = l.host.owner.timers := by
  have ht := h.timing
  rw [ho] at ht
  exact congrArg Prod.fst ht

theorem perform_total (setup : Setup τ) {r : Request τ} (h : r.command? = none) (l : Running τ) :
    ∃ l', perform setup r l = .ok () l' ∧ l'.host.owner.screen = l.host.owner.screen := by
  cases r with
  | send c => cases h
  | arm | disarm | note => exact ⟨_, rfl, rfl⟩

private theorem steps_total (setup : Setup τ) {steps : List (Indicator τ × Request τ)}
    (h : ∀ s ∈ steps, s.2.command? = none) (l : Running τ) :
    ∃ l', (steps.forM fun (state, request) => do
        modifyPanel fun p => { p with indicator := state }
        perform setup request : Act τ PUnit) l = .ok ⟨⟩ l' := by
  induction steps generalizing l with
  | nil => exact ⟨l, rfl⟩
  | cons s steps ih =>
    obtain ⟨state, request⟩ := s
    obtain ⟨m, hm, -⟩ := perform_total setup (h _ List.mem_cons_self) (withIndicator l state)
    have hrest : ∀ s ∈ steps, s.2.command? = none := by
      intro s hs
      exact h s (List.mem_cons_of_mem _ hs)
    obtain ⟨l', hl'⟩ := ih hrest m
    refine ⟨l', bind_ok.mpr ⟨(), m, ?_, hl'⟩⟩
    exact bind_ok.mpr ⟨(), withIndicator l state, rfl, hm⟩

/-- A reaction that tells the screen nothing and does not fault is performed to its end. -/
theorem react_total (setup : Setup τ) {f : Indicator τ → Reaction τ} {l : Running τ}
    (hf : (f l.host.owner.indicator).fault = none)
    (hc : (f l.host.owner.indicator).commands = []) : ∃ l', react setup f l = .ok () l' := by
  have hquiet : ∀ s ∈ (f l.host.owner.indicator).steps, s.2.command? = none := by
    intro s hs
    exact List.filterMap_eq_nil_iff.mp hc _ (List.mem_map_of_mem hs)
  obtain ⟨m, hm⟩ := steps_total setup hquiet l
  refine ⟨withIndicator m (f l.host.owner.indicator).state, get_bind_ok.mpr ?_⟩
  refine bind_ok.mpr ⟨_, m, hm, ?_⟩
  refine bind_ok.mpr ⟨_, withIndicator m (f l.host.owner.indicator).state, rfl, ?_⟩
  rw [hf]
  rfl

theorem perform_sent {setup : Setup τ} {r : Request τ} {l l' : Running τ} {u : Unit}
    (h : perform setup r l = .ok u l') :
    l'.host.owner.screen.sent = l.host.owner.screen.sent ++ r.command?.toList := by
  have hquiet : r.command? = none → l'.host.owner.screen.sent = l.host.owner.screen.sent ++ [] := by
    intro hr
    obtain ⟨m, hm, hscreen⟩ := perform_total setup hr l
    rw [hm] at h
    cases h
    rw [hscreen, List.append_nil]
  cases r with
  | send c =>
    simp only [perform, bind_ok, get_ok, modifyPanel_ok] at h
    obtain ⟨_, l, ⟨rfl, rfl⟩, _, m, rfl, h⟩ := h
    cases hf : (l.host.owner.screen.take c).2 with
    | none =>
      rw [hf] at h
      obtain ⟨-, rfl⟩ := pure_ok.mp h
      exact Screen.sent_take l.host.owner.screen c
    | some f =>
      rw [hf] at h
      exact (throw_ok.mp h).elim
  | arm | disarm | note => exact hquiet rfl

private theorem steps_sent {setup : Setup τ} (steps : List (Indicator τ × Request τ))
    {l l' : Running τ} {u : PUnit}
    (h : (steps.forM fun (state, request) => do
        modifyPanel fun p => { p with indicator := state }
        perform setup request : Act τ PUnit) l = .ok u l') :
    l'.host.owner.screen.sent = l.host.owner.screen.sent ++
      (steps.map Prod.snd).filterMap Request.command? := by
  induction steps generalizing l with
  | nil =>
    obtain ⟨-, rfl⟩ := pure_ok.mp h
    exact (List.append_nil _).symm
  | cons s steps ih =>
    obtain ⟨_, m, hm, h⟩ := bind_ok.mp h
    obtain ⟨_, k, hk, hm⟩ := bind_ok.mp hm
    have hk' : k = withIndicator l s.1 := modifyPanel_ok.mp hk
    subst hk'
    rw [ih h, perform_sent hm, List.append_assoc, List.map_cons]
    cases hc : s.2.command? with
    | none => rw [List.filterMap_cons_none hc]; rfl
    | some c => rw [List.filterMap_cons_some hc]; rfl

/-- A reaction that was performed to its end has sent its commands and no others. -/
theorem react_sent {setup : Setup τ} {f : Indicator τ → Reaction τ} {l l' : Running τ} {u : Unit}
    (h : react setup f l = .ok u l') :
    l'.host.owner.screen.sent =
      l.host.owner.screen.sent ++ (f l.host.owner.indicator).commands := by
  simp only [react, bind_ok, get_ok, modifyPanel_ok] at h
  obtain ⟨_, l, ⟨rfl, rfl⟩, _, m, hm, _, k, rfl, h⟩ := h
  have hsent := steps_sent _ hm
  cases hf : (f l.host.owner.indicator).fault with
  | none =>
    rw [hf] at h
    obtain ⟨-, rfl⟩ := pure_ok.mp h
    exact hsent
  | some e =>
    rw [hf] at h
    exact (throw_ok.mp h).elim

inductive Operation where
  | attach
  | detach
  | tick
  | deliver (d : Delivery)

def Operation.act (setup : Setup τ) : Operation → Act τ Unit
  | .attach => Panel.attach setup
  | .detach => Panel.detach setup
  | .tick => Panel.tick setup
  | .deliver d => listen setup d

theorem readCounters_ok {setup : Setup τ} {l l' : Running τ} {r : Except Fault (Reading τ)}
    (h : readCounters setup l = .ok r l') : l' = l := by
  simp only [readCounters, bind_ok, get_ok, pure_ok] at h
  obtain ⟨_, _, ⟨rfl, rfl⟩, -, rfl⟩ := h
  rfl

theorem readCounters_beside {setup : Setup τ} {l m : Running τ} {r : Except Fault (Reading τ)}
    (hb : Beside l m) (h : readCounters setup l = .ok r l) : readCounters setup m = .ok r m := by
  simp only [readCounters, bind_ok, get_ok, pure_ok] at h ⊢
  obtain ⟨_, _, ⟨rfl, rfl⟩, rfl, -⟩ := h
  refine ⟨m, m, ⟨rfl, rfl⟩, ?_, rfl⟩
  rw [now, now, hb.counters, hb.world, hb.seconds]

theorem readCounters_time {setup : Setup τ} {l l' : Running τ} {reading : Reading τ}
    (h : readCounters setup l = .ok (.ok reading) l') : reading.time = l.now := by
  simp only [readCounters, bind_ok, get_ok, pure_ok] at h
  obtain ⟨_, l, ⟨rfl, rfl⟩, h, -⟩ := h
  have hmap : ∀ totals : Except Fault (Int × Int),
      .ok reading = totals.map (fun t => (⟨t.1, t.2, l.now⟩ : Reading τ)) →
        reading.time = l.now := by
    intro totals ht
    cases totals with
    | error f => cases ht
    | ok t =>
      cases ht
      rfl
  exact hmap _ h

theorem tick_reads {setup : Setup τ} {l l' : Running τ} {u : Unit} (h : tick setup l = .ok u l')
    (ha : l.host.owner.indicator.attached = true) :
    ∃ reading, readCounters setup l = .ok reading l ∧
      Reacted setup (fun i => i.tick reading) l l' := by
  rw [tick, bind_get, if_pos ha] at h
  obtain ⟨reading, m, hm, h⟩ := bind_ok.mp h
  cases readCounters_ok hm
  exact ⟨reading, hm, react_ok h⟩

theorem tick_ok {setup : Setup τ} {l l' : Running τ} {u : Unit} (h : tick setup l = .ok u l') :
    (l.host.owner.indicator.attached = false ∧ l' = l) ∨
    (l.host.owner.indicator.attached = true ∧
      ∃ reading, Reacted setup (fun i => i.tick reading) l l') := by
  cases ha : l.host.owner.indicator.attached with
  | true =>
    obtain ⟨reading, -, hr⟩ := tick_reads h ha
    exact Or.inr ⟨rfl, reading, hr⟩
  | false =>
    rw [tick, bind_get, if_neg (by simp [ha])] at h
    obtain ⟨-, rfl⟩ := pure_ok.mp h
    exact Or.inl ⟨rfl, rfl⟩

theorem openCollaborators_eq (setup : Setup τ) :
    openCollaborators setup = (do
      remember (← setup.collaborators.settings.mapM (openSettings setup)).flatten
      setup.collaborators.connectivity.elim (pure ()) fun feed => do
        remember (← openState setup .interfaces .connection feed)
      setup.collaborators.tint.elim (pure ()) fun c => listen setup (.tint c.1 c.2)
      setup.collaborators.lock.elim (pure ()) fun feed => do
        remember (← openState setup .session .lock feed) : Act τ Unit) := by
  rw [openCollaborators]
  cases setup.collaborators.connectivity <;> cases setup.collaborators.tint <;>
    cases setup.collaborators.lock <;> simp only [Option.elim, bind_assoc, pure_bind]

/-- Attaching an indicator that is not attached: it joins, its collaborators deliver, and it
settles in. -/
theorem attach_ok {setup : Setup τ} {l l' : Running τ} {u : Unit}
    (h : attach setup l = .ok u l') :
    (l.host.owner.indicator.attached = true ∧ l' = l) ∨
    (l.host.owner.indicator.attached = false ∧ ∃ j m, Reacted setup Indicator.join l j ∧
      openCollaborators setup j = .ok () m ∧
      Reacted setup (fun i => i.settleIn (m.host.owner.timers.isArmed .tick)) m l') := by
  simp only [attach, bind_ok, get_ok] at h
  obtain ⟨_, _, ⟨rfl, rfl⟩, h⟩ := h
  split at h
  · rename_i ha
    simp only [bind_ok, get_ok] at h
    obtain ⟨_, j, hj, _, m, hm, _, _, ⟨rfl, rfl⟩, h⟩ := h
    exact Or.inr ⟨by simpa using ha, j, _, react_ok hj, hm, react_ok h⟩
  · rename_i ha
    obtain ⟨-, rfl⟩ := pure_ok.mp h
    exact Or.inl ⟨by simpa using ha, rfl⟩

omit [TimeScale τ] in
theorem onTimers_ok {f : Slots TimerKind → Queue τ Job → Slots TimerKind × Queue τ Job}
    {l l' : Running τ} {u : Unit} :
    onTimers f l = .ok u l' ↔ l' = { l with
      queue := (f l.host.owner.timers l.queue).2
      host := { l.host with owner := { l.host.owner with
        timers := (f l.host.owner.timers l.queue).1 } } } :=
  modify_ok

/-- Detaching: the timers are disarmed, the watches end, and the indicator leaves. -/
theorem detach_ok {setup : Setup τ} {l l' : Running τ} {u : Unit} (h : detach setup l = .ok u l') :
    ∃ m k, onTimers (fun s q => s.disarmAll setup.reaches q) l = .ok () m ∧
      m.host.owner.watches.forM (fun ids => ids.forM Station.unwatch) m = .ok ⟨⟩ k ∧
      Reacted setup Indicator.leave
        { k with host := { k.host with owner := { k.host.owner with watches := [] } } } l' := by
  simp only [detach, bind_ok, get_ok, modifyPanel_ok] at h
  obtain ⟨_, m, hm, _, _, ⟨rfl, rfl⟩, _, k, hk, _, _, rfl, h⟩ := h
  exact ⟨_, k, hm, hk, react_ok h⟩

/-- A timer of the indicator leaves its slot, then a tick or a refresh follows. -/
theorem fireOwn_ok {setup : Setup τ} {token : Nat} {kind : TimerKind} {l l' : Running τ} {u : Unit}
    (h : fireOwn setup token kind l = .ok u l') :
    ∃ m, m = { l with host := { l.host with owner := { l.host.owner with
        timers := l.host.owner.timers.release kind token } } } ∧
      match kind with
      | .tick => tick setup m = .ok () l'
      | .refresh => Reacted setup Indicator.refresh m l' := by
  simp only [fireOwn, bind_ok, onTimers_ok] at h
  obtain ⟨_, m, rfl, h⟩ := h
  refine ⟨_, rfl, ?_⟩
  cases kind with
  | tick => exact h
  | refresh => exact react_ok h

/-- No collaborators, and every cancellation reaches the loop. -/
def secluded : Setup Rat where
  station := { interval := fun _ => 1000 }

/-- An indicator as it is made, with counters that stay at zero. -/
def made (settings : Settings) (world : World) : Running Rat where
  seconds := 0
  host := {
    world := world
    owner := {
      indicator := { settings := settings, sampler := { interval := 2000 } }
      counters := .scripted 0 0 none } }

/-- What happens to an indicator that is turned on, ticks and is attached a second time. -/
def reattaching : List Operation :=
  [.attach, .deliver (.setting "networktraffic.enabled" (.int 1)), .tick, .detach, .attach]

end Panel

end TrafficIndicator
