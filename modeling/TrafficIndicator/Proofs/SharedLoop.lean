import Mathlib.Logic.Function.Basic
import TrafficIndicator.Proofs.Heartbeat
import TrafficIndicator.Proofs.PanelEvents
import TrafficIndicator.Proofs.WatchHistory

/-!
The timers of an indicator and the polls of its collaborators wait in one queue. Where every
cancellation reaches the loop, the slots of each hold what waits for them, whatever is done and
however it ends. When a timer of the indicator is due is then told by the orders that the
indicator gave, and no poll bears on it.
-/
namespace TrafficIndicator

def Request.book {τ : Type} (deadline : τ → τ) (o : TimerKind → Option τ) :
    Request τ → TimerKind → Option τ
  | .arm kind delay => Function.update o kind (some (deadline delay))
  | .disarm kind => Function.update o kind none
  | _ => o

@[simp] theorem Request.book_arm {τ : Type} (deadline : τ → τ) (o : TimerKind → Option τ)
    (kind : TimerKind) (delay : τ) :
    (Request.arm kind delay).book deadline o = Function.update o kind (some (deadline delay)) := rfl

@[simp] theorem Request.book_disarm {τ : Type} (deadline : τ → τ) (o : TimerKind → Option τ)
    (kind : TimerKind) :
    (Request.disarm kind : Request τ).book deadline o = Function.update o kind none := rfl

namespace Slots

variable {τ κ ν ν' : Type} [DecidableEq ν] [DecidableEq ν'] {kindOf : κ → Option ν}
  {kindOf' : κ → Option ν'} {s : Slots ν} {s' : Slots ν'} {q : Queue τ κ}

/-- Disarming a timer of other slots leaves the timers of these waiting. -/
theorem Backed.disarm_other (h : Backed kindOf s q) (hq : q.Sound) (h' : Backed kindOf' s' q)
    (hd : ∀ job k, kindOf' job = some k → kindOf job = none) (kind : ν') :
    Backed kindOf s (s'.disarm (fun _ => true) kind q).2 := by
  rw [disarm]
  cases ht : s'.token? kind with
  | none => exact h
  | some t =>
    refine h.cancel fun k hk => ?_
    -- a token that both held would be that of one entry, of two kinds
    obtain ⟨e, he, het, hek⟩ := h.queued k t hk
    obtain ⟨f, hf, hft, hfk⟩ := h'.queued kind t ht
    rw [Queue.live_unique hq he hf (het.trans hft.symm), hd _ _ hfk] at hek
    cases hek

theorem Backed.arm_other [TimeScale τ] (h : Backed kindOf s q) (hq : q.Sound)
    (h' : Backed kindOf' s' q) (hd : ∀ job k, kindOf' job = some k → kindOf job = none)
    {job : κ} (hj : kindOf job = none) (kind : ν') (deadline : τ) :
    Backed kindOf s (s'.arm (fun _ => true) kind deadline job q).2 :=
  (h.disarm_other hq h' hd kind).push (sound_disarm hq _ kind) hj deadline

theorem sorted_arm [TimeScale τ] {finite : τ → Prop} (ho : TimeScale.Orders finite) (hq : q.Sound)
    (hs : Queue.Sorted finite q.entries) {deadline : τ} (hf : finite deadline)
    (reaches : Nat → Bool) (kind : ν) (job : κ) :
    Queue.Sorted finite (s.arm reaches kind deadline job q).2.entries := by
  have hd : Queue.Sorted finite (s.disarm reaches kind q).2.entries := by
    rwa [entries_disarm]
  exact Queue.sorted_insert ho hd hf (sound_disarm hq reaches kind).issued

end Slots

namespace Panel

open Loop Indicator

variable {τ : Type} [TimeScale τ]

/-- The slots of the indicator and those of the polls hold what waits for them in one queue,
which stands in order if times compare. -/
structure Geared (timers : Slots TimerKind) (slots : Slots Feed) (q : Queue τ Job) : Prop where
  sound : q.Sound
  timers : timers.Backed ownKind q
  polls : slots.Backed Ledger.pollFeed q
  sorted : TimeScale.Orders (fun _ : τ => True) → Queue.Sorted (fun _ => True) q.entries

private theorem poll_of_own (job : Job) (kind : TimerKind) (h : ownKind job = some kind) :
    Ledger.pollFeed job = none := by
  cases job with
  | own => rfl
  | poll => cases h

private theorem own_of_poll (job : Job) (feed : Feed) (h : Ledger.pollFeed job = some feed) :
    ownKind job = none := by
  cases job with
  | own => cases h
  | poll => rfl

theorem geared_empty : Geared (τ := τ) {} {} {} where
  sound := Queue.sound_empty
  timers := Slots.backed_empty
  polls := Slots.backed_empty
  sorted _ := ⟨List.Pairwise.nil, fun _ h => (List.not_mem_nil h).elim⟩

variable {timers : Slots TimerKind} {slots : Slots Feed} {q r : Queue τ Job}

namespace Geared

theorem of_live (h : Geared timers slots q) (hr : r.Sound) (hl : r.live = q.live)
    (he : r.entries <:+ q.entries) : Geared timers slots r where
  sound := hr
  timers := h.timers.of_live hl
  polls := h.polls.of_live hl
  sorted ho := (h.sorted ho).sublist he.sublist

theorem settle (h : Geared timers slots q) : Geared timers slots q.settle :=
  h.of_live (Queue.sound_settle h.sound) (Queue.live_settle h.sound)
    (Queue.dropped_dropCancelled _ h.sound.tidy).suffix

theorem idle {now : τ} (h : Geared timers slots q) (ht : q.takeDue now = (none, r)) :
    Geared timers slots r :=
  h.of_live (Queue.takeDue_none h.sound ht).1 (Queue.takeDue_none h.sound ht).2
    (Queue.takeDue_suffix h.sound ht)

theorem disarm (h : Geared timers slots q) (kind : TimerKind) :
    Geared (timers.disarm (fun _ => true) kind q).1 slots
      (timers.disarm (fun _ => true) kind q).2 where
  sound := Slots.sound_disarm h.sound _ kind
  timers := Slots.backed_disarm h.sound h.timers kind
  polls := h.polls.disarm_other h.sound h.timers poll_of_own kind
  sorted ho := by
    rw [Slots.entries_disarm]
    exact h.sorted ho

theorem disarmAll (h : Geared timers slots q) :
    Geared (timers.disarmAll (fun _ => true) q).1 slots
      (timers.disarmAll (fun _ => true) q).2 :=
  Slots.disarmAll_keeps (P := fun timers q => Geared timers slots q)
    (fun _ _ kind h => h.disarm kind) h

theorem arm (h : Geared timers slots q) (kind : TimerKind) (deadline : τ) :
    Geared (timers.arm (fun _ => true) kind deadline (.own kind) q).1 slots
      (timers.arm (fun _ => true) kind deadline (.own kind) q).2 where
  sound := Slots.sound_arm h.sound _ kind deadline _
  timers := Slots.backed_arm h.sound h.timers rfl deadline
  polls := h.polls.arm_other h.sound h.timers poll_of_own rfl kind deadline
  sorted ho := Slots.sorted_arm ho h.sound (h.sorted ho) trivial _ kind _

theorem disarmPoll (h : Geared timers slots q) (feed : Feed) :
    Geared timers (slots.disarm (fun _ => true) feed q).1
      (slots.disarm (fun _ => true) feed q).2 where
  sound := Slots.sound_disarm h.sound _ feed
  timers := h.timers.disarm_other h.sound h.polls own_of_poll feed
  polls := Slots.backed_disarm h.sound h.polls feed
  sorted ho := by
    rw [Slots.entries_disarm]
    exact h.sorted ho

theorem armPoll (h : Geared timers slots q) (feed : Feed) (deadline : τ) (id : Nat) :
    Geared timers (slots.arm (fun _ => true) feed deadline (.poll feed id) q).1
      (slots.arm (fun _ => true) feed deadline (.poll feed id) q).2 where
  sound := Slots.sound_arm h.sound _ feed deadline _
  timers := h.timers.arm_other h.sound h.polls own_of_poll rfl feed deadline
  polls := Slots.backed_arm h.sound h.polls rfl deadline
  sorted ho := Slots.sorted_arm ho h.sound (h.sorted ho) trivial _ feed _

theorem take {now : τ} {e : Entry τ Job} (h : Geared timers slots q)
    (ht : q.takeDue now = (some e, r)) :
    Geared (timers.afterFiring ownKind e) (slots.afterFiring Ledger.pollFeed e) r := by
  obtain ⟨hr, hl, -, -⟩ := Queue.takeDue_some h.sound ht
  exact ⟨hr, h.timers.fire h.sound hl, h.polls.fire h.sound hl,
    fun ho => (h.sorted ho).sublist (Queue.takeDue_suffix h.sound ht).sublist⟩

theorem takeOwn {now : τ} {e : Entry τ Job} {kind : TimerKind} (h : Geared timers slots q)
    (ht : q.takeDue now = (some e, r)) (hj : e.job = .own kind) :
    Geared (timers.release kind e.token) slots r := by
  have hg := h.take ht
  rw [Slots.afterFiring, Slots.afterFiring, hj] at hg
  exact hg

theorem takePoll {now : τ} {e : Entry τ Job} {feed : Feed} {id : Nat}
    (h : Geared timers slots q) (ht : q.takeDue now = (some e, r)) (hj : e.job = .poll feed id) :
    Geared timers (slots.release feed e.token) r := by
  have hg := h.take ht
  rw [Slots.afterFiring, Slots.afterFiring, hj] at hg
  exact hg

theorem serve {due : τ → τ} {t : Slots TimerKind × Queue τ Job} (h : Geared t.1 slots t.2)
    (r : Request τ) :
    Geared (r.serve (fun _ => true) due t).1 slots (r.serve (fun _ => true) due t).2 := by
  cases r with
  | send | note => exact h
  | arm kind delay => exact h.arm kind _
  | disarm kind => exact h.disarm kind

end Geared

/-- When the timer of each kind is due, of those that wait. -/
def due (q : Queue τ Job) (kind : TimerKind) : Option τ :=
  (q.live.find? fun e => e.job = .own kind).map Entry.deadline

omit [TimeScale τ] in
theorem due_of_live (hl : r.live = q.live) : due r = due q := by
  funext kind
  rw [due, due, hl]

omit [TimeScale τ] in
theorem ownKind_eq_some {job : Job} {kind : TimerKind} :
    ownKind job = some kind ↔ job = .own kind := by
  cases job with
  | own k => simp [ownKind]
  | poll => simp [ownKind]

namespace Geared

theorem due_eq_some (h : Geared timers slots q) {kind : TimerKind} {d : τ} :
    due q kind = some d ↔ ∃ e ∈ q.live, e.job = .own kind ∧ e.deadline = d := by
  rw [due, Option.map_eq_some_iff]
  constructor
  · rintro ⟨e, he, hd⟩
    exact ⟨e, List.mem_of_find?_eq_some he, by simpa using List.find?_some he, hd⟩
  · rintro ⟨e, he, hj, hd⟩
    cases hf : q.live.find? fun e => e.job = .own kind with
    | none =>
      have hn := List.find?_eq_none.mp hf e he
      exact absurd (decide_eq_true hj) hn
    | some f =>
      have hfj : f.job = .own kind := by simpa using List.find?_some hf
      have hfl : f ∈ q.live := List.mem_of_find?_eq_some hf
      have htf := h.timers.held f hfl kind (ownKind_eq_some.mpr hfj)
      have hte := h.timers.held e he kind (ownKind_eq_some.mpr hj)
      have hef : f = e := Queue.live_unique h.sound hfl he (Option.some.inj (htf.symm.trans hte))
      exact ⟨f, rfl, by rw [hef, hd]⟩

theorem isArmed_iff (h : Geared timers slots q) (kind : TimerKind) :
    timers.isArmed kind = true ↔ (due q kind).isSome = true := by
  rw [Slots.isArmed_iff, Option.isSome_iff_exists]
  constructor
  · rintro ⟨t, ht⟩
    obtain ⟨e, he, -, hk⟩ := h.timers.queued kind t ht
    exact ⟨e.deadline, h.due_eq_some.mpr ⟨e, he, ownKind_eq_some.mp hk, rfl⟩⟩
  · rintro ⟨d, hd⟩
    obtain ⟨e, he, hj, -⟩ := h.due_eq_some.mp hd
    exact ⟨e.token, h.timers.held e he kind (ownKind_eq_some.mpr hj)⟩

theorem waiting_eq (h : Geared timers slots q) (kind : TimerKind) :
    (q.live.filter fun e => e.job = .own kind).map Entry.deadline = (due q kind).toList := by
  have htokens := h.timers.live_of_kind h.sound kind
  simp only [ownKind_eq_some] at htokens
  rw [due, ← List.head?_filter]
  generalize q.live.filter (fun e => e.job = .own kind) = es at htokens ⊢
  rcases es with _ | ⟨e, _ | ⟨f, es⟩⟩
  · rfl
  · rfl
  · have hlen := congrArg List.length htokens
    cases ht : timers.token? kind <;> simp [ht] at hlen

/-- When timers are due is told by the entries of the indicator that wait. -/
theorem due_eq_of_own (h : Geared timers slots q) {timers' : Slots TimerKind}
    {slots' : Slots Feed} (h' : Geared timers' slots' r)
    (hl : ∀ e kind, e.job = .own kind → (e ∈ r.live ↔ e ∈ q.live)) : due r = due q := by
  funext kind
  refine Option.ext fun d => ?_
  rw [h.due_eq_some, h'.due_eq_some]
  refine exists_congr fun e => ?_
  constructor
  · rintro ⟨he, hj, hd⟩
    exact ⟨(hl e kind hj).mp he, hj, hd⟩
  · rintro ⟨he, hj, hd⟩
    exact ⟨(hl e kind hj).mpr he, hj, hd⟩

theorem due_disarm (h : Geared timers slots q) (kind : TimerKind) :
    due (timers.disarm (fun _ => true) kind q).2 = Function.update (due q) kind none := by
  funext k
  refine Option.ext fun d => ?_
  rw [(h.disarm kind).due_eq_some]
  simp only [Slots.mem_live_disarm_iff h.sound h.timers]
  by_cases hk : k = kind
  · subst hk
    rw [Function.update_self]
    refine ⟨?_, nofun⟩
    rintro ⟨e, ⟨-, hne⟩, hj, -⟩
    exact absurd (ownKind_eq_some.mpr hj) hne
  · rw [Function.update_of_ne hk, h.due_eq_some]
    constructor
    · rintro ⟨e, ⟨he, -⟩, hj, hd⟩
      exact ⟨e, he, hj, hd⟩
    · rintro ⟨e, he, hj, hd⟩
      refine ⟨e, ⟨he, fun hown => hk ?_⟩, hj, hd⟩
      rw [ownKind_eq_some.mp hown] at hj
      exact (Job.own.inj hj).symm

theorem due_arm (h : Geared timers slots q) (kind : TimerKind) (deadline : τ) :
    due (timers.arm (fun _ => true) kind deadline (.own kind) q).2 =
      Function.update (due q) kind (some deadline) := by
  funext k
  refine Option.ext fun d => ?_
  have hd := congrFun (h.due_disarm kind) k
  rw [(h.arm kind deadline).due_eq_some]
  simp only [Slots.mem_live_arm h.sound]
  by_cases hk : k = kind
  · subst hk
    rw [Function.update_self] at hd ⊢
    constructor
    · rintro ⟨e, rfl | he, hj, rfl⟩
      · rfl
      · have hsome := (h.disarm k).due_eq_some.mpr ⟨e, he, hj, rfl⟩
        rw [hd] at hsome
        cases hsome
    · rintro ⟨⟩
      exact ⟨_, Or.inl rfl, rfl, rfl⟩
  · rw [Function.update_of_ne hk] at hd ⊢
    rw [← hd, (h.disarm kind).due_eq_some]
    constructor
    · rintro ⟨e, rfl | he, hj, he'⟩
      · exact absurd (Job.own.inj hj).symm hk
      · exact ⟨e, he, hj, he'⟩
    · rintro ⟨e, he, hj, he'⟩
      exact ⟨e, Or.inr he, hj, he'⟩

theorem due_disarmAll (h : Geared timers slots q) (kind : TimerKind) :
    due (timers.disarmAll (fun _ => true) q).2 kind = none := by
  have hn := (h.disarmAll.isArmed_iff kind).not
  rw [Slots.isArmed, Slots.token?_disarmAll] at hn
  exact Option.not_isSome_iff_eq_none.mp (hn.mp Bool.false_ne_true)

theorem due_disarmPoll (h : Geared timers slots q) (feed : Feed) :
    due (slots.disarm (fun _ => true) feed q).2 = due q := by
  refine h.due_eq_of_own (h.disarmPoll feed) fun e kind hj => ?_
  rw [Slots.mem_live_disarm_iff h.sound h.polls, hj]
  exact and_iff_left nofun

theorem due_armPoll (h : Geared timers slots q) (feed : Feed) (deadline : τ) (id : Nat) :
    due (slots.arm (fun _ => true) feed deadline (.poll feed id) q).2 = due q := by
  refine h.due_eq_of_own (h.armPoll feed deadline id) fun e kind hj => ?_
  rw [Slots.mem_live_arm h.sound, Slots.mem_live_disarm_iff h.sound h.polls, hj]
  constructor
  · rintro (rfl | ⟨he, -⟩)
    · cases hj
    · exact he
  · intro he
    exact Or.inr ⟨he, nofun⟩

theorem due_takePoll {now : τ} {e : Entry τ Job} {feed : Feed} {id : Nat}
    (h : Geared timers slots q) (ht : q.takeDue now = (some e, r)) (hj : e.job = .poll feed id) :
    due r = due q := by
  refine h.due_eq_of_own (h.takePoll ht hj) fun f kind hf => ?_
  rw [(Queue.takeDue_some h.sound ht).2.1, List.mem_cons]
  refine ⟨Or.inr, ?_⟩
  rintro (rfl | hmem)
  · rw [hj] at hf
    cases hf
  · exact hmem

theorem due_takeOwn {now : τ} {e : Entry τ Job} {kind : TimerKind} (h : Geared timers slots q)
    (ht : q.takeDue now = (some e, r)) (hj : e.job = .own kind) :
    due q kind = some e.deadline ∧ due r = Function.update (due q) kind none := by
  obtain ⟨-, hl, -, -⟩ := Queue.takeDue_some h.sound ht
  have hg := h.takeOwn ht hj
  have hmem : e ∈ q.live := by
    rw [hl]
    exact List.mem_cons_self
  refine ⟨h.due_eq_some.mpr ⟨e, hmem, hj, rfl⟩, ?_⟩
  funext k
  by_cases hk : k = kind
  · subst hk
    rw [Function.update_self]
    -- the slot that held the timer is empty now
    have hheld := h.timers.held e hmem k (ownKind_eq_some.mpr hj)
    have hempty : (timers.release k e.token).isArmed k = false := by
      rw [Slots.isArmed_eq_false, Slots.token?_release, if_pos ⟨rfl, hheld⟩]
    have hn := (hg.isArmed_iff k).not
    rw [hempty] at hn
    exact Option.not_isSome_iff_eq_none.mp (hn.mp Bool.false_ne_true)
  · rw [Function.update_of_ne hk]
    refine Option.ext fun d => ?_
    rw [hg.due_eq_some, h.due_eq_some, hl]
    constructor
    · rintro ⟨f, hf, hfj, hd⟩
      exact ⟨f, List.mem_cons_of_mem _ hf, hfj, hd⟩
    · rintro ⟨f, hf, hfj, hd⟩
      rcases List.mem_cons.mp hf with rfl | hf
      · rw [hj] at hfj
        exact absurd (Job.own.inj hfj).symm hk
      · exact ⟨f, hf, hfj, hd⟩

theorem due_serve {deadline : τ → τ} {t : Slots TimerKind × Queue τ Job}
    (h : Geared t.1 slots t.2) (r : Request τ) :
    due (r.serve (fun _ => true) deadline t).2 = r.book deadline (due t.2) := by
  cases r with
  | send | note => rfl
  | arm kind delay => exact h.due_arm kind _
  | disarm kind => exact h.due_disarm kind

theorem foldl_serve {t : Slots TimerKind × Queue τ Job} (h : Geared t.1 slots t.2)
    (deadline : τ → τ) (rs : List (Request τ)) :
    let t' := rs.foldl (fun t r => r.serve (fun _ => true) deadline t) t
    Geared t'.1 slots t'.2 ∧ due t'.2 = rs.foldl (Request.book deadline) (due t.2) := by
  induction rs generalizing t with
  | nil => exact ⟨h, rfl⟩
  | cons r rs ih =>
    obtain ⟨hg, hd⟩ := ih (h.serve r)
    refine ⟨hg, hd.trans ?_⟩
    rw [h.due_serve]
    rfl

end Geared

def InGear (l : Running τ) : Prop := Geared l.host.owner.timers l.host.slots l.queue

theorem ends_react {setup : Setup τ} {P : Running τ → Prop} {R : Halt → Running τ → Prop}
    (hi : ∀ l i, P l → P (withIndicator l i)) (hr : ∀ r, Ends P R (perform setup r))
    (he : ∀ e l, P l → R e l) (f : Indicator τ → Reaction τ) : Ends P R (react setup f) := by
  refine ends_bind ends_get fun l => ?_
  refine ends_bind (ends_forM _ fun s _ => ?_) fun _ => ?_
  · exact ends_bind (ends_modifyHost fun l hp => hi l _ hp) fun _ => hr _
  · refine ends_bind (ends_modifyHost fun l hp => hi l _ hp) fun _ => ?_
    cases (f l.host.owner.indicator).fault with
    | none => exact ends_pure _
    | some fault => exact ends_throw fun l hp => he _ l hp

section Real

variable {setup : Setup τ} (hs : setup.reaches = fun _ => true)

include hs

theorem inGear_perform (r : Request τ) : Ends InGear (fun _ => InGear) (perform setup r) := by
  cases r with
  | send c =>
    refine ends_bind ends_get fun l => ?_
    generalize l.host.owner.screen.take c = taken
    refine ends_bind (ends_modifyHost fun l h => h) fun _ => ?_
    cases taken.2 with
    | none => exact ends_pure _
    | some f => exact ends_throw fun l h => h
  | arm kind delay =>
    refine ends_bind ends_get fun l => ends_modify fun m h => ?_
    rw [hs]
    exact Geared.arm h kind _
  | disarm kind =>
    refine ends_modify fun m h => ?_
    rw [hs]
    exact Geared.disarm h kind
  | note n => exact ends_modify fun l h => h

theorem inGear_react (f : Indicator τ → Reaction τ) :
    Ends InGear (fun _ => InGear) (react setup f) :=
  ends_react (fun _ _ h => h) (inGear_perform hs) (fun _ _ h => h) f

theorem inGear_hosts : Hosts setup InGear (fun _ => InGear) where
  doings := {
    file _ _ _ h := h
    notices _ _ h := h
    asked _ _ h := h
    halts _ _ h := h
    memory _ _ h := h
    watches _ _ h := h
    disarms _ feed h := Geared.disarmPoll h feed
    arms _ feed deadline id h := Geared.armPoll h feed deadline id }
  listens _ := inGear_react hs _
  remembers _ _ h := h

theorem inGear_tick : Ends InGear (fun _ => InGear) (tick setup) := by
  refine ends_bind ends_get fun l => ends_ite ?_ (ends_pure _)
  refine ends_bind ?_ fun reading => inGear_react hs _
  exact ends_bind ends_get fun _ => ends_pure _

theorem inGear_operation (op : Operation) : Ends InGear (fun _ => InGear) (op.act setup) := by
  cases op with
  | attach =>
    refine ends_bind ends_get fun l => ends_ite ?_ (ends_pure _)
    refine ends_bind (inGear_react hs _) fun _ => ?_
    refine ends_bind (inGear_hosts hs).openCollaborators fun _ => ends_bind ends_get fun m => ?_
    exact inGear_react hs _
  | detach =>
    refine ends_bind (ends_modify fun l h => ?_) fun _ => ?_
    · rw [hs]
      exact Geared.disarmAll h
    · refine ends_bind ends_get fun l => ends_bind ((inGear_hosts hs).unwatchAll _) fun _ => ?_
      exact ends_bind (ends_modifyHost fun l h => h) fun _ => inGear_react hs _
  | tick => exact inGear_tick hs
  | deliver d => exact inGear_react hs _

theorem inGear_fire {l : Running τ} {now : τ} {e : Entry τ Job} {q : Queue τ Job}
    (h : InGear l) (ht : l.queue.takeDue now = (some e, q)) :
    EndsIn InGear (fun _ => InGear) (fire setup e { l with queue := q }) := by
  rw [fire, Station.fire]
  cases hj : e.job with
  | own kind =>
    refine endsIn_bind (M := InGear) (h.takeOwn ht hj) fun _ m hm => ?_
    cases kind with
    | tick => exact inGear_tick hs m hm
    | refresh => exact inGear_react hs _ m hm
  | poll feed id =>
    refine endsIn_bind (M := InGear) (h.takePoll ht hj) fun _ m hm => ?_
    exact (inGear_hosts hs).doings.poll (inGear_hosts hs).listens feed id m hm

end Real

/-- What a reaction makes of the times at which timers are due is told by its orders. -/
theorem Reacted.due {setup : Setup τ} (hs : setup.reaches = fun _ => true)
    {f : Indicator τ → Reaction τ} {l l' : Running τ} (h : Reacted setup f l l')
    (hg : InGear l) :
    InGear l' ∧ due l'.queue = (f l.host.owner.indicator).orders.foldl
      (Request.book l.deadline) (Panel.due l.queue) := by
  have ht := h.timing
  rw [hs] at ht
  have hfold := Geared.foldl_serve (t := Panel.timing l) hg l.deadline
    (f l.host.owner.indicator).orders
  rw [← ht, ← h.beside.slots] at hfold
  exact hfold

theorem due_detach {setup : Setup τ} (hs : setup.reaches = fun _ => true) {l l' : Running τ}
    {u : Unit} (hg : InGear l) (hr : detach setup l = .ok u l') :
    l'.host.owner.indicator.attached = false ∧ ∀ kind, due l'.queue kind = none := by
  obtain ⟨m, k, hm, hk, hleave⟩ := detach_ok hr
  let Unarmed (m : Running τ) : Prop := InGear m ∧ ∀ kind, due m.queue kind = none
  have hunarmed : Unarmed m := by
    rw [onTimers_ok.mp hm, hs]
    exact ⟨Geared.disarmAll hg, Geared.due_disarmAll hg⟩
  have hends : Ends Unarmed (fun _ _ => True)
      (m.host.owner.watches.forM fun ids => ids.forM Station.unwatch : Act τ PUnit) := by
    refine ends_forM _ fun _ _ => ends_forM _ fun id _ => ?_
    refine Station.ends_unwatch (fun _ _ h => h) (fun l feed h => ?_) (fun _ _ h => h) id
    refine ⟨Geared.disarmPoll h.1 feed, fun kind => ?_⟩
    exact (congrFun (Geared.due_disarmPoll h.1 feed) kind).trans (h.2 kind)
  obtain ⟨hgk, hduek⟩ := hends.keeps m _ k hk hunarmed
  obtain ⟨-, ho, hd⟩ := leave_spec (i := k.host.owner.indicator)
  have hdue := (hleave.due hs hgk).2
  dsimp only at hdue
  rw [ho] at hdue
  refine ⟨?_, fun kind => ?_⟩
  · rw [hleave.state]
    exact hd
  · rw [hdue]
    exact hduek kind

inductive Shift : Slots Feed × Queue τ Job → Slots Feed × Queue τ Job → Prop where
  | settle {slots : Slots Feed} {q : Queue τ Job} : Shift (slots, q) (slots, q.settle)
  | idle {slots : Slots Feed} {q r : Queue τ Job} {now : τ} (ht : q.takeDue now = (none, r)) :
      Shift (slots, q) (slots, r)
  | take {slots : Slots Feed} {q r : Queue τ Job} {now : τ} {e : Entry τ Job} {feed : Feed}
      {id : Nat} (ht : q.takeDue now = (some e, r)) (hj : e.job = .poll feed id) :
      Shift (slots, q) (slots.release feed e.token, r)
  | arm {slots : Slots Feed} {q : Queue τ Job} (feed : Feed) (deadline : τ) (id : Nat) :
      Shift (slots, q) (slots.arm (fun _ => true) feed deadline (.poll feed id) q)
  | disarm {slots : Slots Feed} {q : Queue τ Job} (feed : Feed) :
      Shift (slots, q) (slots.disarm (fun _ => true) feed q)

theorem Shift.geared {t t' : Slots Feed × Queue τ Job} (hs : Shift t t')
    (h : Geared timers t.1 t.2) : Geared timers t'.1 t'.2 ∧ due t'.2 = due t.2 := by
  cases hs with
  | settle => exact ⟨h.settle, due_of_live (Queue.live_settle h.sound)⟩
  | idle ht => exact ⟨h.idle ht, due_of_live (Queue.takeDue_none h.sound ht).2⟩
  | take ht hj => exact ⟨h.takePoll ht hj, h.due_takePoll ht hj⟩
  | arm feed deadline id => exact ⟨h.armPoll feed deadline id, h.due_armPoll feed deadline id⟩
  | disarm feed => exact ⟨h.disarmPoll feed, h.due_disarmPoll feed⟩

end Panel

end TrafficIndicator
