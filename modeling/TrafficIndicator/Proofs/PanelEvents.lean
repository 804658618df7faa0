import TrafficIndicator.Proofs.Emissions
import TrafficIndicator.Proofs.PanelOperations

/-!
Operations, timers and polls come down to reactions of the indicator, one after another. What
each reaction keeps, however it ends, and what depends on the indicator and the screen alone,
is kept by all of them.
-/
namespace TrafficIndicator.Panel

open Loop Indicator

inductive Stimulus (τ : Type) where
  | join
  | settleIn (armed : Bool)
  | deliver (d : Delivery)
  | tick (reading : Except Fault (Reading τ))
  | refresh
  | leave

variable {τ : Type} [TimeScale τ]

def Stimulus.reaction : Stimulus τ → Indicator τ → Reaction τ
  | .join, i => i.join
  | .settleIn armed, i => i.settleIn armed
  | .deliver d, i => i.receive d
  | .tick reading, i => i.tick reading
  | .refresh, i => i.refresh
  | .leave, i => i.leave

omit [TimeScale τ] in
def Stimulus.Fits (i : Indicator τ) : Stimulus τ → Prop
  | .settleIn _ => i.attached = true
  | _ => True

/-- Only a command can halt, and then the indicator stays as it was when it sent it. -/
theorem endsIn_perform (setup : Setup τ) (r : Request τ) (l : Running τ) :
    EndsIn (fun _ => True)
      (fun _ m => r.command? ≠ none ∧ m.host.owner.indicator = l.host.owner.indicator)
      (perform setup r l) := by
  have hquiet : r.command? = none → EndsIn (fun _ => True)
      (fun _ m => r.command? ≠ none ∧ m.host.owner.indicator = l.host.owner.indicator)
      (perform setup r l) := by
    intro hr
    obtain ⟨m, hm, -⟩ := perform_total setup hr l
    rw [hm]
    trivial
  cases r with
  | send c =>
    rw [perform, bind_get]
    dsimp only
    have hset : ∀ s : Screen, modifyPanel (fun p => { p with screen := s }) l =
        .ok () { l with host.owner.screen := s } := fun _ => rfl
    rw [bind_of_ok (hset _)]
    cases (l.host.owner.screen.take c).2 with
    | none => trivial
    | some f => exact ⟨Option.some_ne_none c, rfl⟩
  | arm | disarm | note => exact hquiet rfl

private theorem endsIn_each (setup : Setup τ) (steps : List (Indicator τ × Request τ))
    (l : Running τ) :
    EndsIn (fun _ => True)
      (fun _ m => ∃ p ∈ steps, p.2.command? ≠ none ∧ m.host.owner.indicator = p.1)
      ((steps.forM fun (state, request) => do
        modifyPanel fun p => { p with indicator := state }
        perform setup request : Act τ PUnit) l) := by
  induction steps generalizing l with
  | nil => trivial
  | cons s steps ih =>
    refine endsIn_bind (M := fun _ => True) ?_ fun _ k _ => ?_
    · refine (endsIn_perform setup s.2 (withIndicator l s.1)).imp (fun _ h => h) ?_
      rintro _ m ⟨hc, hm⟩
      exact ⟨s, List.mem_cons_self, hc, hm⟩
    · refine (ih k).imp (fun _ h => h) ?_
      rintro _ m ⟨p, hp, hpm⟩
      exact ⟨p, List.mem_cons_of_mem _ hp, hpm⟩

/-- A reaction leaves its last state, or the one in which it sent a command and broke off. -/
theorem indicator_after_react (setup : Setup τ) (f : Indicator τ → Reaction τ) (l : Running τ) :
    let r := f l.host.owner.indicator
    (after (react setup f) l).host.owner.indicator = r.state ∨
      ∃ p ∈ r.steps, p.2.command? ≠ none ∧
        (after (react setup f) l).host.owner.indicator = p.1 := by
  intro r
  let Left (m : Running τ) : Prop := m.host.owner.indicator = r.state ∨
    ∃ p ∈ r.steps, p.2.command? ≠ none ∧ m.host.owner.indicator = p.1
  have hends : EndsIn Left (fun _ => Left) (react setup f l) := by
    rw [react, bind_get]
    refine endsIn_bind ((endsIn_each setup r.steps l).imp (fun _ h => h) fun _ m hm => Or.inr hm)
      fun _ m _ => ?_
    have hset : modifyPanel (fun p => { p with indicator := r.state }) m =
        .ok () (withIndicator m r.state) := rfl
    rw [bind_of_ok hset]
    cases r.fault with
    | none => exact Or.inl rfl
    | some f => exact Or.inl rfl
  exact endsIn_iff_after.mp hends

theorem mode_after_react {setup : Setup τ} {f : Indicator τ → Reaction τ} {l : Running τ}
    (hp : Paced l.host.owner.indicator (f l.host.owner.indicator)) :
    SameMode l.host.owner.indicator (after (react setup f) l).host.owner.indicator := by
  rcases indicator_after_react setup f l with hi | ⟨p, hmem, -, hi⟩
  · rw [hi]
    exact hp.mode
  · rw [hi]
    exact hp.modes p hmem

theorem attached_after_deliver (setup : Setup τ) (d : Delivery) (l : Running τ) :
    (after (listen setup d) l).host.owner.indicator.attached =
      l.host.owner.indicator.attached := by
  cases d with
  | setting key v =>
    have hc := settingChanged_commands (i := l.host.owner.indicator) key v
    rcases indicator_after_react setup (fun i => i.receive (.setting key v)) l with
      hi | ⟨p, hp, hpc, -⟩
    · rw [listen, hi, receive]
      cases settingChanged_taken (i := l.host.owner.indicator) key v with
      | refused _ hs => rw [hs]; rfl
      | unknown _ _ hs => rw [hs]
      | stored _ _ _ hs => rw [hs]
      | turnedOn _ _ _ _ hs => rw [hs]; rfl
      | changed _ _ _ _ hs => rw [hs]
    · exact absurd (List.filterMap_eq_nil_iff.mp hc _ (List.mem_map_of_mem hp)) hpc
  | connection b => exact (mode_after_react (paced_connectionChanged b)).attached
  | tint color pinned => exact (mode_after_react (paced_tintChanged color pinned)).attached
  | lock b => exact (mode_after_react (paced_lockChanged b)).attached

structure Hosts (setup : Setup τ) (P : Running τ → Prop) (R : Halt → Running τ → Prop) :
    Prop where
  doings : Station.OfDoings P R
  listens : ∀ d, Ends P R (Panel.listen setup d)
  remembers : ∀ l ws, P l → P { l with host.owner.watches := ws }

namespace Hosts

variable {setup : Setup τ} {P : Running τ → Prop} {R : Halt → Running τ → Prop}
  (h : Hosts setup P R)

include h

theorem remember (ids : List Nat) : Ends P R (Panel.remember ids : Act τ Unit) :=
  fun l hp => h.remembers l _ hp

theorem openSettings (feed : SettingsFeed) : Ends P R (Panel.openSettings setup feed) := by
  cases feed with
  | fixed entries => exact ends_bind (ends_forM entries fun e _ => h.listens _) fun _ => ends_pure _
  | file => exact ends_bind (h.doings.watch h.listens _) fun _ => ends_pure _

theorem openState (feed : Feed) (deliver : Bool → Delivery) (state : StateFeed) :
    Ends P R (Panel.openState setup feed deliver state) := by
  cases state with
  | fixed b => exact ends_bind (h.listens _) fun _ => ends_pure _
  | polled => exact ends_bind (h.doings.watch h.listens _) fun _ => ends_pure _

theorem openCollaborators : Ends P R (Panel.openCollaborators setup) := by
  rw [openCollaborators_eq]
  refine ends_bind (ends_mapM _ fun feed _ => h.openSettings feed) fun ids => ?_
  refine ends_bind (h.remember _) fun _ => ?_
  refine ends_bind (ends_elim fun feed _ => ?_) fun _ => ?_
  · exact ends_bind (h.openState _ _ feed) fun ids => h.remember ids
  refine ends_bind (ends_elim fun c _ => h.listens _) fun _ => ?_
  refine ends_elim fun feed _ => ?_
  exact ends_bind (h.openState _ _ feed) fun ids => h.remember ids

theorem unwatchAll (watches : List (List Nat)) :
    Ends P R (watches.forM fun ids => ids.forM Station.unwatch : Act τ PUnit) :=
  ends_forM _ fun _ _ => ends_forM _ fun id _ => h.doings.unwatch id

end Hosts

/-- A property of the indicator and the screen that every reaction which can come keeps, and what
is left of it at a halt. -/
structure Reacting (P : Running τ → Prop) (R : Halt → Running τ → Prop) : Prop where
  reacts : ∀ setup (s : Stimulus τ) l, s.Fits l.host.owner.indicator → P l →
    EndsIn P R (react setup s.reaction l)
  around : ∀ l l', l'.host.owner.indicator = l.host.owner.indicator →
    l'.host.owner.screen = l.host.owner.screen → P l → P l'
  halts : ∀ e l, P l → R e l

namespace Reacting

variable {P : Running τ → Prop} {R : Halt → Running τ → Prop} (h : Reacting P R)

include h

theorem ofOwner : Station.OfOwner P R where
  same l l' ho hp := h.around l l' (by rw [ho]) (by rw [ho]) hp
  halts := h.halts

theorem react (setup : Setup τ) {s : Stimulus τ} (hs : ∀ i, s.Fits i) :
    Ends P R (Panel.react setup s.reaction) :=
  fun l hp => h.reacts setup s l (hs _) hp

theorem listen (setup : Setup τ) (d : Delivery) : Ends P R (Panel.listen setup d) :=
  h.react setup (s := .deliver d) fun _ => trivial

theorem tick (setup : Setup τ) : Ends P R (Panel.tick setup) := by
  refine ends_bind ends_get fun l => ends_ite ?_ (ends_pure _)
  refine ends_bind ?_ fun reading => h.react setup (s := .tick reading) fun _ => trivial
  exact ends_bind ends_get fun _ => ends_pure _

theorem hosts (setup : Setup τ) : Hosts setup P R where
  doings := h.ofOwner.ofDoings
  listens := h.listen setup
  remembers l _ hp := h.around l _ rfl rfl hp

theorem hosts_attached (setup : Setup τ) :
    Hosts setup (fun l => P l ∧ l.host.owner.indicator.attached = true) R where
  doings := Station.OfOwner.ofDoings {
    same l l' ho hp := by
      refine ⟨h.around l l' (by rw [ho]) (by rw [ho]) hp.1, ?_⟩
      rw [ho]
      exact hp.2
    halts e l hp := h.halts e l hp.1 }
  listens d l hp := by
    have hends := h.listen setup d l hp.1
    have hattached := (attached_after_deliver setup d l).trans hp.2
    rw [after] at hattached
    cases hr : Panel.listen setup d l with
    | ok u m =>
      rw [hr] at hends hattached
      exact ⟨hends, hattached⟩
    | error e m =>
      rw [hr] at hends
      exact hends
  remembers l _ hp := ⟨h.around l _ rfl rfl hp.1, hp.2⟩

theorem attach (setup : Setup τ) : Ends P R (Panel.attach setup) := by
  refine ends_bind ends_get fun l => ends_ite ?_ (ends_pure _)
  intro m hp
  refine endsIn_bind (M := fun m => P m ∧ m.host.owner.indicator.attached = true) ?_
    fun _ m hm => ?_
  · have hjoined := h.reacts setup .join m trivial hp
    obtain ⟨k, hk⟩ := react_total setup (f := Indicator.join) (l := m) join_fault
      silent_join.commands
    change EndsIn P R (Panel.react setup Indicator.join m) at hjoined
    rw [hk] at hjoined ⊢
    refine ⟨hjoined, ?_⟩
    rw [(react_ok hk).state, join_spec.1]
  · refine endsIn_bind ((h.hosts_attached setup).openCollaborators m hm) fun _ k hk => ?_
    exact h.reacts setup (.settleIn _) k hk.2 hk.1

theorem detach (setup : Setup τ) : Ends P R (Panel.detach setup) := by
  refine ends_bind (ends_modify fun l hp => h.around l _ rfl rfl hp) fun _ => ?_
  refine ends_bind ends_get fun l => ?_
  refine ends_bind ((h.hosts setup).unwatchAll _) fun _ => ?_
  exact ends_bind (ends_modifyHost fun l hp => h.around l _ rfl rfl hp) fun _ =>
    h.react setup (s := .leave) fun _ => trivial

theorem operation (setup : Setup τ) (op : Operation) : Ends P R (op.act setup) := by
  cases op with
  | attach => exact h.attach setup
  | detach => exact h.detach setup
  | tick => exact h.tick setup
  | deliver d => exact h.listen setup d

theorem fire (setup : Setup τ) (e : Entry τ Job) : Ends P R (Panel.fire setup e) := by
  rw [Panel.fire, Station.fire]
  cases e.job with
  | own kind =>
    refine ends_bind (ends_modify fun l hp => h.around l _ rfl rfl hp) fun _ => ?_
    cases kind with
    | tick => exact h.tick setup
    | refresh => exact h.react setup (s := .refresh) fun _ => trivial
  | poll feed id =>
    exact ends_bind (Station.ends_onSlots h.ofOwner _) fun _ =>
      h.ofOwner.ofDoings.poll (h.listen setup) feed id

end Reacting

abbrev Lasts {α : Type} (P : Running τ → Prop) (x : Act τ α) : Prop := Ends P (fun _ => P) x

/-- The loop after some operations, each of which may halt. -/
def afterAll (setup : Setup τ) (ops : List Operation) (l : Running τ) : Running τ :=
  ops.foldl (fun l op => after (op.act setup) l) l

theorem Reacting.afterAll {P : Running τ → Prop} (h : Reacting P fun _ => P) (setup : Setup τ)
    (ops : List Operation) {l : Running τ} (hp : P l) : P (afterAll setup ops l) := by
  induction ops generalizing l with
  | nil => exact hp
  | cons op ops ih => exact ih (endsIn_iff_after.mp (h.operation setup op l hp))

structure Lasting (P : Running τ → Prop) : Prop where
  reacts : ∀ setup (s : Stimulus τ) l, P l → P (after (react setup s.reaction) l)
  around : ∀ l l', l'.host.owner.indicator = l.host.owner.indicator →
    l'.host.owner.screen = l.host.owner.screen → P l → P l'

namespace Lasting

variable {P : Running τ → Prop} (h : Lasting P)

include h

theorem reacting : Reacting P fun _ => P where
  reacts setup s l _ hp := endsIn_iff_after.mpr (h.reacts setup s l hp)
  around := h.around
  halts _ _ hp := hp

theorem listen (setup : Setup τ) (d : Delivery) : Lasts P (Panel.listen setup d) :=
  h.reacting.listen setup d

theorem operation (setup : Setup τ) (op : Operation) : Lasts P (op.act setup) :=
  h.reacting.operation setup op

theorem fire (setup : Setup τ) (e : Entry τ Job) : Lasts P (Panel.fire setup e) :=
  h.reacting.fire setup e

end Lasting

end TrafficIndicator.Panel
