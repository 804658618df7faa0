import TrafficIndicator.Proofs.SlotHistory
import TrafficIndicator.Time.Scale
import TrafficIndicator.Timer.Script

/-!
A script drives a loop and its slots from outside and from inside the jobs that fire, and any
of its steps may fail. Whatever a step does is made of single operations, each of which leads
on from one history to a longer one.
-/
namespace TrafficIndicator

namespace Queue

variable {τ κ ν : Type}

theorem taken_append (newer older : List (Event τ κ)) :
    taken (newer ++ older) = taken newer ++ taken older := by
  induction newer with
  | nil => rfl
  | cons x newer ih =>
    cases x with
    | taken e => exact congrArg (e :: ·) ih
    | pushed | cancelled => exact ih

variable [TimeScale τ] [DecidableEq ν] {past : List (Event τ κ)} {q : Queue τ κ}

theorem Past.disarm (h : Past past q) (reaches : Nat → Bool) (s : Slots ν) (kind : ν) :
    ∃ more, taken more = [] ∧ Past (more ++ past) (s.disarm reaches kind q).2 := by
  rw [Slots.disarm]
  split
  · exact ⟨[], rfl, h⟩
  · rename_i t _
    dsimp only
    split
    · exact ⟨[.cancelled t], rfl, h.cancel t⟩
    · exact ⟨[], rfl, h⟩

theorem Past.disarmAll (h : Past past q) (reaches : Nat → Bool) (s : Slots ν) :
    ∃ more, taken more = [] ∧ Past (more ++ past) (s.disarmAll reaches q).2 := by
  refine Slots.disarmAll_keeps (P := fun _ q => ∃ more, taken more = [] ∧ Past (more ++ past) q)
    ?_ ⟨[], rfl, h⟩
  rintro s q kind ⟨more, hmore, hp⟩
  obtain ⟨again, hagain, hp⟩ := hp.disarm reaches s kind
  refine ⟨again ++ more, ?_, ?_⟩
  · rw [taken_append, hagain, hmore]
    rfl
  · rw [List.append_assoc]
    exact hp

end Queue

namespace Script

open Loop

variable {τ : Type} [TimeScale τ]

structure Kept (setup : Setup τ) (P : Loop τ (Job τ) (Host τ) → Prop) : Prop where
  aside : ∀ l l', l'.queue = l.queue → l'.host.slots = l.host.slots →
    l'.host.fired = l.host.fired → P l → P l'
  pushes : ∀ l deadline job, job.kind = none → P l →
    P { l with queue := (l.queue.push deadline job).2 }
  cancels : ∀ l token, P l → P { l with queue := l.queue.cancel token }
  arms : ∀ l kind deadline job, job.kind = some kind → P l →
    P { l with queue := (l.host.slots.arm setup.reaches kind deadline job l.queue).2
               host.slots := (l.host.slots.arm setup.reaches kind deadline job l.queue).1 }
  disarms : ∀ l kind, P l →
    P { l with queue := (l.host.slots.disarm setup.reaches kind l.queue).2
               host.slots := (l.host.slots.disarm setup.reaches kind l.queue).1 }
  disarmsAll : ∀ l, P l →
    P { l with queue := (l.host.slots.disarmAll setup.reaches l.queue).2
               host.slots := (l.host.slots.disarmAll setup.reaches l.queue).1 }
  fires : ∀ l now time e q, P l → l.queue.takeDue now = (some e, q) →
    P { l with queue := q
               host.slots := l.host.slots.afterFiring Job.kind e
               host.fired := l.host.fired ++ [(e.job.name, time)] }
  idles : ∀ l now q, P l → l.queue.takeDue now = (none, q) → P { l with queue := q }
  settles : ∀ l, P l → P { l with queue := l.queue.settle }

variable {setup : Setup τ} {P : Loop τ (Job τ) (Host τ) → Prop}

/-- A halt keeps the property, unless the turns are used up. -/
abbrev AtHalt (P : Loop τ (Job τ) (Host τ) → Prop) (h : Halt) (l : Loop τ (Job τ) (Host τ)) :
    Prop :=
  h ≠ .exhausted → P l

theorem pauses_of_kept (h : Kept setup P) (fire : Entry τ (Job τ) → Act τ Unit) :
    Pauses P (AtHalt P) (hooks setup fire) where
  settles := h.settles
  sleeps _ := ends_bind (ends_modifyHost fun l => h.aside l _ rfl rfl rfl)
    fun _ => ends_modify fun l => h.aside l _ rfl rfl rfl
  rests l := h.aside l _ rfl rfl rfl
  started l _ := h.aside l _ rfl rfl rfl
  stopped _ l _ hp hn := h.aside l _ rfl rfl rfl (hp hn)

/-- Each step keeps what single operations keep, given that the jobs do that it fires. -/
theorem leaves_perform (h : Kept setup P) {turns : Nat} {fire : Entry τ (Job τ) → Act τ Unit}
    (ht : Turns P (AtHalt P) fire) (s : Step τ) : Leaves P (perform setup turns fire s) := by
  cases s with
  | later delay name body =>
    exact ends_bind (fun l => h.pushes l _ _ rfl) fun _ => ends_pure _
  | cancel token =>
    have hcancel : Leaves P (Loop.cancel token.toNat : Act τ Unit) :=
      ends_modify fun l => h.cancels l _
    exact ends_ite (ends_bind hcancel fun _ => ends_pure _) (ends_pure _)
  | arm kind delay name body =>
    exact ends_bind ends_get fun l =>
      ends_bind (ends_modify fun l => h.arms l kind _ _ rfl) fun _ => ends_pure _
  | disarm kind => exact ends_bind (ends_modify fun l => h.disarms l kind) fun _ => ends_pure _
  | disarmAll => exact ends_bind (ends_modify fun l => h.disarmsAll l) fun _ => ends_pure _
  | isArmed | now => exact ends_bind ends_get fun _ => ends_pure _
  | nextDeadline =>
    exact ends_bind (ends_bind (ends_modify h.settles) fun _ =>
      ends_bind ends_get fun _ => ends_pure _) fun _ => ends_pure _
  | runDue now =>
    exact ends_bind ends_get fun l => ends_bind (ends_runDue ht _ _ _) fun _ => ends_pure _
  | run => exact ends_bind (ends_run ht (pauses_of_kept h fire) _) fun _ => ends_pure _
  | stop | moveClock =>
    exact ends_bind (ends_modify fun l => h.aside l _ rfl rfl rfl) fun _ => ends_pure _
  | fail message => exact ends_throw fun l hp _ => hp

theorem turns_fire (h : Kept setup P) (turns depth : Nat) :
    Turns P (AtHalt P) (fire setup turns depth) := by
  induction depth with
  | zero =>
    exact ⟨fun l now e q hp ht hn => absurd rfl hn, h.idles, fun l hp hn => absurd rfl hn⟩
  | succ depth ih =>
    refine ⟨?_, h.idles, fun l hp hn => absurd rfl hn⟩
    intro l now e q hp ht
    -- between the release of the slot and the record of the name
    let M : Loop τ (Job τ) (Host τ) → Prop := fun m =>
      ∀ time, P { m with host.fired := m.host.fired ++ [(e.job.name, time)] }
    have hreleased : M { l with queue := q, host.slots := l.host.slots.afterFiring Job.kind e } :=
      fun time => h.fires l now time e q hp ht
    have hrest : ∀ m, M m → EndsIn P (AtHalt P) ((do
        let now := (← get).now
        modifyHost fun h => { h with fired := h.fired ++ [(e.job.name, now)] }
        e.job.body.forM fun step => do
          let _ ← perform setup turns (fire setup turns depth) step : Act τ Unit) m) := by
      intro m hm
      have hbody : Leaves P (e.job.body.forM fun step => do
          let _ ← perform setup turns (fire setup turns depth) step : Act τ Unit) :=
        ends_forM _ fun s _ => ends_bind (leaves_perform h ih s) fun _ => ends_pure _
      exact hbody _ (hm m.now)
    rw [Slots.afterFiring] at hreleased
    rw [fire]
    cases hk : e.job.kind with
    | none =>
      rw [hk] at hreleased
      exact hrest _ hreleased
    | some kind =>
      rw [hk] at hreleased
      exact hrest _ hreleased

theorem leaves_step (h : Kept setup P) (s : Step τ) : Leaves P (step setup s) :=
  leaves_perform h (turns_fire h _ _) s

/-- The jobs that fired are those that the history of the queue says were taken. -/
structure Recorded (past : List (Queue.Event τ (Job τ))) (l : Loop τ (Job τ) (Host τ)) : Prop where
  queue : Queue.Past past l.queue
  fired : l.host.fired.map Prod.fst = ((Queue.taken past).map fun e => e.job.name).reverse

def Extends (past : List (Queue.Event τ (Job τ))) (l : Loop τ (Job τ) (Host τ)) : Prop :=
  ∃ newer, Recorded (newer ++ past) l

theorem Recorded.onward {past : List (Queue.Event τ (Job τ))} {l l' : Loop τ (Job τ) (Host τ)}
    (h : Recorded past l) (newer : List (Queue.Event τ (Job τ))) (hn : Queue.taken newer = [])
    (hf : l'.host.fired = l.host.fired) (hq : Queue.Past (newer ++ past) l'.queue) :
    Recorded (newer ++ past) l' := by
  refine ⟨hq, ?_⟩
  rw [hf, Queue.taken_append, hn]
  exact h.fired

theorem Recorded.extends {past newer : List (Queue.Event τ (Job τ))}
    {l l' : Loop τ (Job τ) (Host τ)} (h : Recorded (newer ++ past) l)
    {more : List (Queue.Event τ (Job τ))} (hq : Queue.Past (more ++ (newer ++ past)) l'.queue)
    (hm : Queue.taken more = []) (hf : l'.host.fired = l.host.fired) :
    Recorded ((more ++ newer) ++ past) l' := by
  rw [List.append_assoc]
  exact h.onward more hm hf hq

theorem kept_extends (setup : Setup τ) (past : List (Queue.Event τ (Job τ))) :
    Kept setup (Extends past) where
  aside l l' hq _ hf := by
    rintro ⟨newer, h⟩
    have hp := h.queue
    rw [← hq] at hp
    exact ⟨newer, h.onward [] rfl hf hp⟩
  pushes l deadline job _ := by
    rintro ⟨newer, h⟩
    exact ⟨_ :: newer, h.onward [_] rfl rfl (h.queue.push deadline job)⟩
  cancels l token := by
    rintro ⟨newer, h⟩
    exact ⟨_ :: newer, h.onward [_] rfl rfl (h.queue.cancel token)⟩
  arms l kind deadline job _ := by
    rintro ⟨newer, h⟩
    obtain ⟨more, hmore, hp⟩ := h.queue.disarm setup.reaches l.host.slots kind
    have hpushed := hp.push deadline job
    rw [← List.cons_append] at hpushed
    exact ⟨_, h.extends hpushed hmore rfl⟩
  disarms l kind := by
    rintro ⟨newer, h⟩
    obtain ⟨more, hmore, hp⟩ := h.queue.disarm setup.reaches l.host.slots kind
    exact ⟨_, h.extends hp hmore rfl⟩
  disarmsAll l := by
    rintro ⟨newer, h⟩
    obtain ⟨more, hmore, hp⟩ := h.queue.disarmAll setup.reaches l.host.slots
    exact ⟨_, h.extends hp hmore rfl⟩
  fires l now time e q := by
    rintro ⟨newer, h⟩ ht
    refine ⟨.taken e :: newer, h.queue.take ht, ?_⟩
    rw [List.map_append, h.fired]
    exact (List.reverse_cons).symm
  idles l now q := by
    rintro ⟨newer, h⟩ ht
    exact ⟨newer, h.onward [] rfl rfl (h.queue.idle ht)⟩
  settles l := by
    rintro ⟨newer, h⟩
    exact ⟨newer, h.onward [] rfl rfl h.queue.settle⟩

/-- A run through what is due, on its own or within a job, that comes to its end. -/
theorem late_of_runDue {finite : τ → Prop} (ho : TimeScale.Orders finite) {setup : Setup τ}
    {past : List (Queue.Event τ (Job τ))} {l m : Loop τ (Job τ) (Host τ)} (h : Recorded past l)
    (hf : ∀ e ∈ Queue.pushed past, finite e.deadline) {turns depth : Nat} {now : Option τ}
    {r : Reply τ} (hn : finite (now.getD l.now))
    (hr : perform setup turns (fire setup turns depth) (.runDue now) l = .ok r m) :
    ∃ newer, Recorded (newer ++ past) m ∧
      ((∀ e ∈ Queue.pushed newer, finite e.deadline) →
        ∀ e ∈ m.queue.live, TimeScale.upTo e.deadline (now.getD l.now) = false) := by
  obtain ⟨n, m', hrun, hr⟩ := bind_ok.mp (show (Loop.runDue (fire setup turns depth)
    (now.getD l.now) turns 0 >>= fun n => pure (.count n)) l = .ok r m from hr)
  obtain ⟨-, rfl⟩ := pure_ok.mp hr
  have ht := turns_fire (kept_extends setup past) turns depth
  obtain ⟨k, q, ⟨newer, hk⟩, hlast, rfl⟩ := runDue_ok ht ⟨[], h⟩ hrun
  refine ⟨newer, hk.onward [] rfl rfl (hk.queue.idle hlast), fun hnew => ?_⟩
  refine hk.queue.late_of_takeDue ho ?_ hn hlast
  intro e he
  rw [Queue.pushed_append] at he
  rcases List.mem_append.mp he with he | he
  · exact hnew e he
  · exact hf e he

/-- Each entry is taken at most once and only if it was pushed, and never once it was
cancelled while it waited; cancelled tokens are those of queued entries, so that what waits is
what was pushed less what was taken and withdrawn; the entry that is taken comes first of all
that wait. Whatever step comes next, and however it ends, the history only grows; and when a
run through what is due comes to its end, nothing that waits is due. -/
theorem taken_once_in_order {finite : τ → Prop} (ho : TimeScale.Orders finite) (setup : Setup τ)
    {past : List (Queue.Event τ (Job τ))} {l : Loop τ (Job τ) (Host τ)} (h : Recorded past l)
    (hf : ∀ e ∈ Queue.pushed past, finite e.deadline) :
    ((Queue.taken past).map Entry.token).Nodup ∧
      (∀ e ∈ Queue.taken past, e ∈ Queue.pushed past) ∧
      (∀ token, Queue.Withdrawn past token → ∀ e ∈ Queue.taken past, e.token ≠ token) ∧
      (∀ token ∈ l.queue.cancelled, ∃ e ∈ l.queue.entries, e.token = token) ∧
      l.queue.liveCount + (Queue.taken past).length + {t | Queue.Withdrawn past t}.ncard =
        (Queue.pushed past).length ∧
      (∀ now e q, l.queue.takeDue now = (some e, q) →
        e ∈ l.queue.live ∧ ∀ f ∈ l.queue.live, f = e ∨ Queue.Precedes e f) ∧
      (∀ s, EndsIn (Extends past) (AtHalt (Extends past)) (step setup s l)) ∧
      ∀ turns depth now r m, finite (now.getD l.now) →
        perform setup turns (fire setup turns depth) (.runDue now) l = .ok r m →
          ∃ newer, Recorded (newer ++ past) m ∧
            ((∀ e ∈ Queue.pushed newer, finite e.deadline) →
              ∀ e ∈ m.queue.live, TimeScale.upTo e.deadline (now.getD l.now) = false) := by
  refine ⟨h.queue.taken_nodup, h.queue.taken_pushed, fun _ => h.queue.not_taken_of_withdrawn,
    h.queue.sound.tidy.queued, h.queue.count, ?_, ?_, ?_⟩
  · intro now e q ht
    exact Queue.precedes_of_takeDue (h.queue.sorted ho hf) h.queue.sound ht
  · intro s
    exact leaves_step (kept_extends setup past) s l ⟨[], h⟩
  · intro turns depth now r m hn hr
    exact late_of_runDue ho h hf hn hr

def bareJob (kind : Option LooseText) (name : String) : Job Rat := ⟨kind, name, []⟩

/-- Of three jobs for one time the second was cancelled, and the first has run. -/
def pastOfThree : List (Queue.Event Rat (Job Rat)) :=
  [.taken ⟨5, 1, bareJob none "a"⟩, .cancelled 2, .pushed ⟨5, 3, bareJob none "c"⟩,
    .pushed ⟨5, 2, bareJob none "b"⟩, .pushed ⟨5, 1, bareJob none "a"⟩]

def loopOfThree : Loop Rat (Job Rat) (Host Rat) where
  seconds := 0
  queue.entries := [⟨5, 2, bareJob none "b"⟩, ⟨5, 3, bareJob none "c"⟩]
  queue.cancelled := [2]
  queue.nextToken := 4
  host.fired := [("a", 0)]

theorem recorded_of_three : Recorded pastOfThree loopOfThree := by
  have hpushed : Queue.Past _ _ :=
    ((Queue.Past.empty.push (5 : Rat) (bareJob none "a")).push 5 (bareJob none "b")).push 5
      (bareJob none "c")
  refine ⟨(hpushed.cancel 2).take (?_ : Queue.takeDue _ (5 : Rat) = _), rfl⟩
  rfl

theorem one_withdrawn_of_three :
    {t | Queue.Withdrawn pastOfThree t}.ncard = 1 ∧
      (∀ f ∈ loopOfThree.queue.live, f = ⟨5, 3, bareJob none "c"⟩ ∨
        Queue.Precedes ⟨5, 3, bareJob none "c"⟩ f) ∧
      ∃ r m, perform { slept := id } 3 (fire { slept := id } 3 1) (.runDue (some 5)) loopOfThree =
        .ok r m ∧ ∀ e ∈ m.queue.live, TimeScale.upTo e.deadline (5 : Rat) = false := by
  obtain ⟨-, -, -, -, hcount, hfirst, -, hdue⟩ :=
    taken_once_in_order TimeScale.orders_exact { slept := id } recorded_of_three
      (fun _ _ => trivial)
  have hlive : loopOfThree.queue.liveCount = 1 := rfl
  have htaken : (Queue.taken pastOfThree).length = 1 := rfl
  have hpushed : (Queue.pushed pastOfThree).length = 3 := rfl
  have hrun : ∃ r m, perform { slept := id } 3 (fire { slept := id } 3 1) (.runDue (some 5))
      loopOfThree = .ok r m := ⟨_, _, rfl⟩
  obtain ⟨r, m, hrun⟩ := hrun
  obtain ⟨newer, -, hlate⟩ := hdue 3 1 (some 5) r m trivial hrun
  refine ⟨by omega, (hfirst 5 _ _ rfl).2, r, m, hrun, ?_⟩
  exact hlate fun _ _ => trivial

/-- The slots and the queue beneath them have this history, and what happened since. -/
def Arms (setup : Setup τ) (past : List (Slots.Event LooseText)) (l : Loop τ (Job τ) (Host τ)) :
    Prop :=
  ∃ newer, Slots.Past Job.kind setup.reaches (newer ++ past) l.host.slots l.queue

theorem kept_arms (setup : Setup τ) (past : List (Slots.Event LooseText)) :
    Kept setup (Arms setup past) where
  aside l l' hq hs _ := by
    rintro ⟨newer, h⟩
    rw [← hq, ← hs] at h
    exact ⟨newer, h⟩
  pushes l deadline job hj := by
    rintro ⟨newer, h⟩
    exact ⟨newer, h.push hj deadline⟩
  cancels l token := by
    rintro ⟨newer, h⟩
    exact ⟨_ :: newer, h.cancel token⟩
  arms l kind deadline job hj := by
    rintro ⟨newer, h⟩
    exact ⟨_ :: newer, h.arm hj deadline⟩
  disarms l kind := by
    rintro ⟨newer, h⟩
    exact ⟨_ :: newer, h.disarm kind⟩
  disarmsAll l := by
    rintro ⟨newer, h⟩
    exact ⟨_ :: newer, h.disarmAll⟩
  fires l now time e q := by
    rintro ⟨newer, h⟩ ht
    exact ⟨_ :: newer, h.fire ht⟩
  idles l now q := by
    rintro ⟨newer, h⟩ ht
    exact ⟨newer, h.idle ht⟩
  settles l := by
    rintro ⟨newer, h⟩
    exact ⟨newer, h.settle⟩

/-- The history of the slots and that of the queue are of one loop: the timers that fired are
the entries that were taken, and it is their jobs that fired. -/
structure Accounted (setup : Setup τ) (past : List (Slots.Event LooseText))
    (queued : List (Queue.Event τ (Job τ))) (l : Loop τ (Job τ) (Host τ)) : Prop where
  slots : Slots.Past Job.kind setup.reaches past l.host.slots l.queue
  recorded : Recorded queued l
  fired : Slots.firings past = (Queue.taken queued).map Entry.token

theorem Accounted.taken_of_none {past : List (Slots.Event LooseText)}
    {queued newer more : List (Queue.Event τ (Job τ))} {l : Loop τ (Job τ) (Host τ)}
    (h : Accounted setup past (newer ++ queued) l) (hm : Queue.taken more = []) :
    Slots.firings past = (Queue.taken ((more ++ newer) ++ queued)).map Entry.token := by
  rw [List.append_assoc, Queue.taken_append, hm]
  exact h.fired

def Accounts (setup : Setup τ) (past : List (Slots.Event LooseText))
    (queued : List (Queue.Event τ (Job τ))) (l : Loop τ (Job τ) (Host τ)) : Prop :=
  ∃ newer more, Accounted setup (newer ++ past) (more ++ queued) l

theorem kept_accounts (setup : Setup τ) (past : List (Slots.Event LooseText))
    (queued : List (Queue.Event τ (Job τ))) : Kept setup (Accounts setup past queued) where
  aside l l' hq hs hf := by
    rintro ⟨newer, more, h⟩
    have hslots := h.slots
    have hqueue := h.recorded.queue
    rw [← hq] at hqueue
    rw [← hq, ← hs] at hslots
    exact ⟨newer, more, hslots, h.recorded.onward [] rfl hf hqueue, h.fired⟩
  pushes l deadline job hj := by
    rintro ⟨newer, more, h⟩
    have hqueue := h.recorded.queue.push deadline job
    exact ⟨newer, _ :: more, h.slots.push hj deadline, h.recorded.onward [_] rfl rfl hqueue,
      h.fired⟩
  cancels l token := by
    rintro ⟨newer, more, h⟩
    have hqueue := h.recorded.queue.cancel token
    exact ⟨_ :: newer, _ :: more, h.slots.cancel token, h.recorded.onward [_] rfl rfl hqueue,
      h.fired⟩
  arms l kind deadline job hj := by
    rintro ⟨newer, more, h⟩
    obtain ⟨again, hagain, hp⟩ := h.recorded.queue.disarm setup.reaches l.host.slots kind
    have hpushed := hp.push deadline job
    rw [← List.cons_append] at hpushed
    refine ⟨_ :: newer, _, h.slots.arm hj deadline, h.recorded.extends hpushed hagain rfl, ?_⟩
    exact h.taken_of_none hagain
  disarms l kind := by
    rintro ⟨newer, more, h⟩
    obtain ⟨again, hagain, hp⟩ := h.recorded.queue.disarm setup.reaches l.host.slots kind
    refine ⟨_ :: newer, _, h.slots.disarm kind, h.recorded.extends hp hagain rfl, ?_⟩
    exact h.taken_of_none hagain
  disarmsAll l := by
    rintro ⟨newer, more, h⟩
    obtain ⟨again, hagain, hp⟩ := h.recorded.queue.disarmAll setup.reaches l.host.slots
    refine ⟨_ :: newer, _, h.slots.disarmAll, h.recorded.extends hp hagain rfl, ?_⟩
    exact h.taken_of_none hagain
  fires l now time e q := by
    rintro ⟨newer, more, h⟩ ht
    refine ⟨_ :: newer, .taken e :: more, h.slots.fire ht, ⟨h.recorded.queue.take ht, ?_⟩, ?_⟩
    · rw [List.map_append, h.recorded.fired]
      exact (List.reverse_cons).symm
    · exact congrArg (e.token :: ·) h.fired
  idles l now q := by
    rintro ⟨newer, more, h⟩ ht
    have hqueue := h.recorded.queue.idle ht
    exact ⟨newer, more, h.slots.idle ht, h.recorded.onward [] rfl rfl hqueue, h.fired⟩
  settles l := by
    rintro ⟨newer, more, h⟩
    have hqueue := h.recorded.queue.settle
    exact ⟨newer, more, h.slots.settle, h.recorded.onward [] rfl rfl hqueue, h.fired⟩

/-- A kind is armed exactly when the timer that was armed for it last has neither fired nor
been disarmed, whatever cancellations do. If they reach the queue, and nobody else cancels the
timers, the one entry that waits for an armed kind is that timer, none waits for another kind,
and a timer that was disarmed or replaced never fires. Whatever step comes next, and however
it ends, the history only grows; and where the timers that fired were the entries that the queue
gave, each with its job, they still are. -/
theorem armed_iff_pending (setup : Setup τ) {past : List (Slots.Event LooseText)}
    {l : Loop τ (Job τ) (Host τ)}
    (h : Slots.Past Job.kind setup.reaches past l.host.slots l.queue) :
    (∀ kind, l.host.slots.isArmed kind = true ↔ ∃ token, Slots.Pending past kind token) ∧
      (setup.reaches = (fun _ => true) → Slots.Unmeddled past →
        (∀ kind, (l.queue.live.filter fun e => e.job.kind = some kind).length =
          if l.host.slots.isArmed kind then 1 else 0) ∧
        (∀ kind token, Slots.Pending past kind token →
          ∃ e ∈ l.queue.live, e.token = token ∧ e.job.kind = some kind) ∧
        ∀ newer x older kind token, past = newer ++ x :: older → .armed kind token ∈ older →
          x.Replaces kind → .fired token ∉ newer) ∧
      (∀ s, EndsIn (Arms setup past) (AtHalt (Arms setup past)) (step setup s l)) ∧
      ∀ queued, Accounted setup past queued l → ∀ s, EndsIn (Accounts setup past queued)
        (AtHalt (Accounts setup past queued)) (step setup s l) := by
  refine ⟨h.isArmed_iff, ?_, ?_, ?_⟩
  · intro hreach hu
    rw [hreach] at h
    refine ⟨h.count_of_kind hu, ?_, ?_⟩
    · intro kind token hp
      exact (h.backed hu).queued kind token (h.token?_eq_some_iff.mpr hp)
    · rintro newer x older kind token rfl ha hx
      exact (h.not_fired_of_replaced hu ha hx).1
  · intro s
    exact leaves_step (kept_arms setup past) s l ⟨[], h⟩
  · intro queued ha s
    exact leaves_step (kept_accounts setup past queued) s l ⟨[], [], ha⟩

def pastOfTwice : List (Slots.Event LooseText) := [.fired 2, .armed "tick" 2, .armed "tick" 1]

def loopOfTwice : Loop Rat (Job Rat) (Host Rat) where
  seconds := 0
  queue.nextToken := 3
  host.fired := [("a", 0)]

theorem past_of_twice :
    Slots.Past Job.kind (fun _ => true) pastOfTwice loopOfTwice.host.slots loopOfTwice.queue := by
  have hj : (bareJob (some "tick") "a").kind = some "tick" := rfl
  have harmed : Slots.Past Job.kind (fun _ => true) _ _ _ :=
    (Slots.Past.empty.arm hj (5 : Rat)).arm hj 5
  refine harmed.fire (?_ : Queue.takeDue _ (5 : Rat) = (some ⟨5, 2, bareJob (some "tick") "a"⟩, _))
  rfl

def queuedOfTwice : List (Queue.Event Rat (Job Rat)) :=
  [.taken ⟨5, 2, bareJob (some "tick") "a"⟩, .pushed ⟨5, 2, bareJob (some "tick") "a"⟩,
    .cancelled 1, .pushed ⟨5, 1, bareJob (some "tick") "a"⟩]

theorem accounted_of_twice : Accounted { slept := id } pastOfTwice queuedOfTwice loopOfTwice := by
  have hpushed : Queue.Past _ _ :=
    ((Queue.Past.empty.push (5 : Rat) (bareJob (some "tick") "a")).cancel 1).push 5
      (bareJob (some "tick") "a")
  refine ⟨past_of_twice, ⟨hpushed.take (?_ : Queue.takeDue _ (5 : Rat) = _), rfl⟩, rfl⟩
  rfl

theorem not_pending_of_twice :
    (∀ token, ¬ Slots.Pending pastOfTwice "tick" token) ∧
      (loopOfTwice.queue.live.filter fun e => e.job.kind = some (.chars "tick")).length = 0 ∧
      Slots.Event.fired 1 ∉ [Slots.Event.fired (ν := LooseText) 2] ∧
      ∀ s, EndsIn (Accounts { slept := id } pastOfTwice queuedOfTwice)
        (AtHalt (Accounts { slept := id } pastOfTwice queuedOfTwice))
        (step { slept := id } s loopOfTwice) := by
  obtain ⟨harmed, hqueue, -, honward⟩ := armed_iff_pending { slept := id } past_of_twice
  have hidle : loopOfTwice.host.slots.isArmed "tick" = false := rfl
  have hu : Slots.Unmeddled pastOfTwice := by
    intro token hc
    simp [pastOfTwice] at hc
  obtain ⟨hcount, -, hnever⟩ := hqueue rfl hu
  refine ⟨?_, ?_, ?_, honward _ accounted_of_twice⟩
  · intro token hp
    have htrue := (harmed "tick").mpr ⟨token, hp⟩
    rw [hidle] at htrue
    cases htrue
  · have hnone := hcount "tick"
    rw [hidle] at hnone
    exact hnone
  · exact hnever [.fired 2] (.armed "tick" 2) [.armed "tick" 1] "tick" 1 rfl
      List.mem_cons_self rfl

end Script

end TrafficIndicator
