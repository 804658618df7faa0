import TrafficIndicator.Proofs.CleanExit
import TrafficIndicator.Proofs.Deferral
import TrafficIndicator.Proofs.DueRuns
import TrafficIndicator.Proofs.FailedAttach

/-!
Callbacks queue themselves anew while the loop runs through what is due. What they queue waits
for an interval, and every interval of the program is positive; so while the clock does not go
back none of it is due in the same run. The one exception is a settings file that turns the
indicator on: its poll asks for a tick at once. So each callback runs once at most, and the tick
once more.
-/
namespace TrafficIndicator

inductive Callback where
  | own (kind : TimerKind)
  | poll (feed : Feed)
  deriving DecidableEq, Repr

namespace Callback

instance : Fintype Callback where
  elems := {own .tick, own .refresh, poll .interfaces, poll .session, poll .settingsFile}
  complete := by rintro (⟨⟨⟩⟩ | ⟨⟨⟩⟩) <;> decide

end Callback

def Job.callback : Job → Callback
  | .own kind => .own kind
  | .poll feed _ => .poll feed

namespace Panel

open Loop Indicator

section Amid

variable {τ : Type} [TimeScale τ] (setup : Setup τ) (meanwhile : Act τ Unit)

def reactAmid (f : Indicator τ → Reaction τ) : Act τ Unit := do
  let r := f (← get).host.owner.indicator
  r.steps.forM fun (state, request) => do
    modifyPanel fun p => { p with indicator := state }
    meanwhile
    perform setup request
  modifyPanel fun p => { p with indicator := r.state }
  meanwhile
  match r.fault with
  | none => pure ()
  | some fault => throw (.fault fault)

def listenAmid (d : Delivery) : Act τ Unit := reactAmid setup meanwhile fun i => i.receive d

def tickAmid : Act τ Unit := do
  if (← get).host.owner.indicator.attached then
    let reading ← readCounters setup
    reactAmid setup meanwhile fun i => i.tick reading

def fireOwnAmid (token : Nat) (kind : TimerKind) : Act τ Unit := do
  onTimers fun s q => (s.release kind token, q)
  match kind with
  | .tick => tickAmid setup meanwhile
  | .refresh => reactAmid setup meanwhile Indicator.refresh

def fireAmid (e : Entry τ Job) : Act τ Unit := do
  meanwhile
  Station.fire setup.station (listenAmid setup meanwhile) (fireOwnAmid setup meanwhile) e

theorem fireAmid_pure : fireAmid setup (pure ()) = fire setup := by
  have hreact : reactAmid setup (pure ()) = react setup := by
    funext f
    simp only [reactAmid, pure_bind]
    rfl
  have hlisten : listenAmid setup (pure ()) = listen setup := by
    funext d
    rw [listenAmid, hreact]
    rfl
  have htick : tickAmid setup (pure ()) = tick setup := by
    rw [tickAmid, hreact]
    rfl
  have hown : fireOwnAmid setup (pure ()) = fireOwn setup := by
    funext token kind
    cases kind <;> simp only [fireOwnAmid, fireOwn, hreact, htick]
  funext e
  rw [fireAmid, hown, hlisten, pure_bind]
  rfl

end Amid

/-- Time has gone by. The clock did not go back; the world and all that is remembered of it may
have changed, but not the indicator, the slots and the queue. -/
structure Elapsed (l m : Running Rat) : Prop where
  seconds : l.seconds ≤ m.seconds
  queue : m.queue = l.queue
  slots : m.host.slots = l.host.slots
  owner : m.host.owner = l.host.owner

theorem Elapsed.now_le {l m : Running Rat} (h : Elapsed l m) : l.now ≤ m.now := by
  have hs := h.seconds
  change l.seconds * 1000 ≤ m.seconds * 1000
  linarith

def Elapses (meanwhile : Act Rat Unit) : Prop := ∀ l, ∃ m, meanwhile l = .ok () m ∧ Elapsed l m

theorem elapses_pure : Elapses (pure ()) := fun l => ⟨l, rfl, le_refl _, rfl, rfl, rfl⟩

structure Poised (interval : Rat) (l : Running Rat) : Prop where
  geared : InGear l
  interval : l.host.owner.indicator.sampler.interval = interval

structure Awaiting (interval now : Rat) (late : Callback → Prop) (l : Running Rat) : Prop
    extends Poised interval l where
  clock : now ≤ l.now
  overdue : ∀ e ∈ l.queue.live, e.deadline ≤ now → late e.job.callback

structure Faulted (interval : Rat) (h : Halt) (l : Running Rat) : Prop
    extends Poised interval l where
  fault : ∃ f, h = .fault f

abbrev Punctual {α : Type} (interval now : Rat) (late : Callback → Prop) (x : Act Rat α) : Prop :=
  Ends (Awaiting interval now late) (Faulted interval) x

variable {interval now : Rat} {late : Callback → Prop} {l m : Running Rat}

theorem Poised.of_eq (h : Poised interval l) (hq : m.queue = l.queue)
    (hs : m.host.slots = l.host.slots) (ho : m.host.owner = l.host.owner) :
    Poised interval m where
  geared := by
    rw [InGear, ho, hs, hq]
    exact h.geared
  interval := by
    rw [ho]
    exact h.interval

theorem Awaiting.elapsed (h : Awaiting interval now late l) (he : Elapsed l m) :
    Awaiting interval now late m where
  toPoised := h.toPoised.of_eq he.queue he.slots he.owner
  clock := h.clock.trans he.now_le
  overdue := by
    rw [he.queue]
    exact h.overdue

/-- What changes neither the clock nor the indicator, the slots and the queue. -/
theorem Awaiting.aside (h : Awaiting interval now late l) (hc : m.seconds = l.seconds)
    (hq : m.queue = l.queue) (hs : m.host.slots = l.host.slots)
    (ho : m.host.owner = l.host.owner) : Awaiting interval now late m :=
  h.elapsed ⟨hc.ge, hq, hs, ho⟩

theorem awaiting_ofReading : Station.OfReading (Awaiting interval now late) (Faulted interval) where
  file _ _ _ h := h.aside rfl rfl rfl rfl
  notices _ _ h := h.aside rfl rfl rfl rfl
  asked _ _ h := h.aside rfl rfl rfl rfl
  halts f _ h := ⟨h.toPoised, f, rfl⟩

/-- What is armed now for a positive delay was not due by a time that has come. -/
theorem Awaiting.lt_deadline (h : Awaiting interval now late l) {delay : Rat} (hd : 0 < delay) :
    now < l.deadline delay := by
  have hle := le_deadline l delay
  have hclock := h.clock
  linarith

/-- A timer that is armed for a delay adds nothing that was due by then. -/
theorem Awaiting.overdue_arm {ν : Type} [DecidableEq ν] (h : Awaiting interval now late l)
    (s : Slots ν) (reaches : Nat → Bool) (kind : ν) {delay : Rat} {job : Job}
    (hd : 0 < delay ∨ late job.callback) :
    ∀ e ∈ (s.arm reaches kind (l.deadline delay) job l.queue).2.live, e.deadline ≤ now →
      late e.job.callback := by
  intro e he hdue
  rcases (Slots.mem_live_arm h.geared.sound).mp he with rfl | he
  · rcases hd with hd | hlate
    · exact absurd hdue (not_le.mpr (h.lt_deadline hd))
    · exact hlate
  · exact h.overdue e (Slots.mem_live_disarm he) hdue

section Callbacks

variable {setup : Setup Rat} {meanwhile : Act Rat Unit} (hm : Elapses meanwhile)
  (hs : setup.reaches = fun _ => true) (hpos : 0 < interval)

theorem Elapses.ends {R : Halt → Running Rat → Prop} (hm : Elapses meanwhile) :
    Ends (Awaiting interval now late) R meanwhile := by
  intro l h
  obtain ⟨m, hlapse, hp⟩ := hm l
  rw [hlapse]
  exact h.elapsed hp

include hs in
theorem punctual_perform {atOnce : Prop} {q : Request Rat} (hq : q.Defers atOnce)
    (hlate : atOnce → late (.own .tick)) :
    Punctual interval now late (perform setup q) := by
  intro l h
  cases q with
  | send c =>
    rw [perform, bind_get]
    obtain ⟨screen, fault⟩ := l.host.owner.screen.take c
    refine endsIn_bind (M := Awaiting interval now late)
      ⟨⟨h.geared, h.interval⟩, h.clock, h.overdue⟩ fun _ m hm => ?_
    cases fault with
    | none => exact hm
    | some f => exact ⟨hm.toPoised, f, rfl⟩
  | arm kind delay =>
    have harmed : InGear _ := endsIn_iff_after.mp (inGear_perform hs (.arm kind delay) l h.geared)
    refine ⟨⟨harmed, h.interval⟩, h.clock, h.overdue_arm _ _ kind ?_⟩
    rcases hq with hq | ⟨rfl, hq⟩
    · exact .inl hq
    · exact .inr (hlate hq)
  | disarm kind =>
    have hdisarmed : InGear _ := endsIn_iff_after.mp (inGear_perform hs (.disarm kind) l h.geared)
    refine ⟨⟨hdisarmed, h.interval⟩, h.clock, fun e he hdue => ?_⟩
    exact h.overdue e (Slots.mem_live_disarm he) hdue
  | note n => exact h.aside rfl rfl rfl rfl

include hm hs hpos

theorem punctual_react (s : Stimulus Rat) (hlate : s.AtOnce → late (.own .tick)) :
    Punctual interval now late (reactAmid setup meanwhile s.reaction) := by
  intro l h
  have hd := s.deferring hpos h.interval
  have hset : ∀ i : Indicator Rat, i.sampler.interval = interval → ∀ R : Halt → Running Rat → Prop,
      Ends (Awaiting interval now late) R (modifyPanel fun p => { p with indicator := i }) :=
    fun i hi _ => ends_modifyHost fun l h => ⟨⟨h.geared, hi⟩, h.clock, h.overdue⟩
  rw [reactAmid, bind_get]
  refine endsIn_bind (M := Awaiting interval now late) ?_ fun _ m h => ?_
  · refine ends_forM _ (fun p hp => ?_) l h
    refine ends_bind (hset p.1 (hd.states p hp) _) fun _ => ends_bind hm.ends fun _ => ?_
    exact punctual_perform hs (hd.requests p.2 (List.mem_map_of_mem hp)) hlate
  · refine ends_bind (hset _ hd.state _) (fun _ => ends_bind hm.ends fun _ => ?_) m h
    split
    · exact ends_pure _
    · exact ends_throw fun _ h => ⟨h.toPoised, _, rfl⟩

theorem punctual_tick : Punctual interval now late (tickAmid setup meanwhile) := by
  refine ends_bind ends_get fun l => ends_ite ?_ (ends_pure _)
  refine ends_bind ?_ fun reading => punctual_react hm hs hpos (.tick reading) False.elim
  exact ends_bind ends_get fun _ => ends_pure _

theorem punctual_ask (feed : Feed) (hlate : feed = .settingsFile → late (.own .tick)) :
    Punctual interval now late
      (Station.ask setup.station (listenAmid setup meanwhile) feed) := by
  cases feed with
  | interfaces =>
    -- it tells nothing while it is asked
    change Punctual _ _ _ (Station.ask setup.station (fun _ => pure ()) .interfaces)
    exact Station.ends_ask awaiting_ofReading (fun _ _ => ends_pure _) _
  | session =>
    change Punctual _ _ _ (Station.ask setup.station (fun _ => pure ()) .session)
    exact Station.ends_ask awaiting_ofReading (fun _ _ => ends_pure _) _
  | settingsFile =>
    refine Station.ends_ask awaiting_ofReading (fun key value => ?_) _
    exact punctual_react hm hs hpos (.deliver (.setting key value)) fun _ => hlate rfl

theorem punctual_tell (feed : Feed) (s : Sighting) :
    Punctual interval now late (Station.tell (listenAmid setup meanwhile) feed s) := by
  rw [Station.tell.eq_def]
  split
  · exact punctual_react hm hs hpos (.deliver (.connection _)) False.elim
  · exact punctual_react hm hs hpos (.deliver (.lock _)) False.elim
  · exact ends_pure _

omit hm hs hpos in
theorem punctual_armPoll {feed : Feed} (hfeed : 0 < setup.station.interval feed) (id : Nat) :
    Punctual interval now late (Station.armPoll setup.station feed id) := by
  intro l h
  refine ⟨⟨Geared.armPoll h.geared feed _ id, h.interval⟩, h.clock, ?_⟩
  exact h.overdue_arm _ _ feed (.inl hfeed)

theorem punctual_poll {feed : Feed} (hfeed : 0 < setup.station.interval feed) (id : Nat)
    (hlate : feed = .settingsFile → late (.own .tick)) :
    Punctual interval now late
      (Station.poll setup.station (listenAmid setup meanwhile) feed id) := by
  have hrest : Punctual interval now late (do
      if ((← get).host.watches[id]?).any (·.active) then Station.armPoll setup.station feed id :
        Act Rat Unit) :=
    ends_bind ends_get fun _ => ends_ite (punctual_armPoll hfeed id) (ends_pure _)
  refine ends_bind ends_get fun l => ?_
  split
  · exact ends_pure _
  · refine ends_ite ?_ (ends_pure _)
    refine ends_bind (punctual_ask hm hs hpos feed hlate) fun seen => ends_ite ?_ hrest
    refine ends_bind (ends_modifyHost fun l h => h.aside rfl rfl rfl rfl) fun _ => ?_
    exact ends_bind (punctual_tell hm hs hpos feed seen) fun _ => hrest

omit hm hs hpos in
/-- An entry was taken, time has gone by, and what the entry held is given up. -/
theorem awaiting_of_taken {q : Queue Rat Job} (hclock : now ≤ l.now)
    (hint : l.host.owner.indicator.sampler.interval = interval)
    (he : Elapsed { l with queue := q } m)
    (hlate : ∀ f ∈ q.live, f.deadline ≤ now → late f.job.callback)
    {timers : Slots TimerKind} {slots : Slots Feed} (hg : Geared timers slots q) :
    Awaiting interval now late { m with
      host.slots := slots
      host.owner.timers := timers } := by
  refine ⟨⟨?_, ?_⟩, hclock.trans he.now_le, ?_⟩
  · rw [InGear]
    dsimp only
    rw [he.queue]
    exact hg
  · dsimp only
    rw [he.owner]
    exact hint
  · dsimp only
    rw [he.queue]
    exact hlate

variable (late) in
/-- What is due after a callback was due when it was taken, unless the settings file turned the
indicator on. -/
theorem awaiting_fire {time : Rat} {e : Entry Rat Job} {q : Queue Rat Job}
    (h : Poised interval l) (hclock : now ≤ l.now)
    (hfeeds : ∀ feed, 0 < setup.station.interval feed)
    (ht : l.queue.takeDue time = (some e, q))
    (hlate : ∀ f ∈ q.live, f.deadline ≤ now → late f.job.callback)
    (htick : e.job.callback = .poll .settingsFile → late (.own .tick)) :
    EndsIn (Awaiting interval now late) (Faulted interval)
      (fireAmid setup meanwhile e { l with queue := q }) := by
  obtain ⟨m, hlapse, he⟩ := hm { l with queue := q }
  have hleft : ∀ timers slots, Geared timers slots q → Awaiting interval now late { m with
      host.slots := slots
      host.owner.timers := timers } :=
    fun _ _ hg => awaiting_of_taken hclock h.interval he hlate hg
  rw [fireAmid, bind_of_ok hlapse, Station.fire]
  cases hj : e.job with
  | own kind =>
    refine endsIn_bind (M := Awaiting interval now late) ?_ fun _ k hk => ?_
    · refine hleft (m.host.owner.timers.release kind e.token) m.host.slots ?_
      rw [he.owner, he.slots]
      exact h.geared.takeOwn ht hj
    · cases kind with
      | tick => exact punctual_tick hm hs hpos k hk
      | refresh => exact punctual_react hm hs hpos .refresh False.elim k hk
  | poll feed id =>
    refine endsIn_bind (M := Awaiting interval now late) ?_ fun _ k hk => ?_
    · refine hleft m.host.owner.timers (m.host.slots.release feed e.token) ?_
      rw [he.owner, he.slots]
      exact h.geared.takePoll ht hj
    · refine punctual_poll hm hs hpos (hfeeds feed) id (fun hfile => htick ?_) k hk
      rw [hj, hfile]
      rfl

end Callbacks

def overdue (now : Rat) (l : Running Rat) (k : Callback) : Bool :=
  l.queue.live.any fun e => decide (e.deadline ≤ now) && decide (e.job.callback = k)

theorem overdue_eq_true {k : Callback} :
    overdue now l k = true ↔ ∃ e ∈ l.queue.live, e.deadline ≤ now ∧ e.job.callback = k := by
  simp [overdue]

/-- How often a callback may still run: once if it is overdue, and the tick once more while the
poll of the settings file is. -/
def allowance (now : Rat) (l : Running Rat) (k : Callback) : Nat :=
  (overdue now l k).toNat +
    if k = .own .tick then (overdue now l (.poll .settingsFile)).toNat else 0

theorem allowance_le (now : Rat) (l : Running Rat) (k : Callback) :
    allowance now l k ≤ if k = .own .tick then 2 else 1 := by
  have hk := Bool.toNat_le (overdue now l k)
  have hfile := Bool.toNat_le (overdue now l (.poll .settingsFile))
  rw [allowance]
  split <;> omega

theorem Geared.callback_unique {timers : Slots TimerKind} {slots : Slots Feed}
    {q : Queue Rat Job} (h : Geared timers slots q) {e f : Entry Rat Job} (he : e ∈ q.live)
    (hf : f ∈ q.live) (hk : e.job.callback = f.job.callback) : e = f := by
  refine Queue.live_unique h.sound he hf ?_
  cases hje : e.job with
  | own kind =>
    cases hjf : f.job with
    | own kind' =>
      rw [hje, hjf] at hk
      obtain rfl : kind = kind' := Callback.own.inj hk
      have hte := h.timers.held e he kind (ownKind_eq_some.mpr hje)
      have htf := h.timers.held f hf kind (ownKind_eq_some.mpr hjf)
      exact Option.some.inj (hte.symm.trans htf)
    | poll => simp [hje, hjf, Job.callback] at hk
  | poll feed id =>
    cases hjf : f.job with
    | own => simp [hje, hjf, Job.callback] at hk
    | poll feed' id' =>
      rw [hje, hjf] at hk
      obtain rfl : feed = feed' := Callback.poll.inj hk
      have hte := h.polls.held e he feed (by rw [hje]; rfl)
      have htf := h.polls.held f hf feed (by rw [hjf]; rfl)
      exact Option.some.inj (hte.symm.trans htf)

theorem overdue_of_take (h : InGear l) {e : Entry Rat Job} {q : Queue Rat Job}
    (ht : l.queue.takeDue now = (some e, q)) (k : Callback) :
    (overdue now { l with queue := q } k).toNat + (if e.job.callback = k then 1 else 0) =
      (overdue now l k).toNat := by
  obtain ⟨-, hl, hdue, -⟩ := Queue.takeDue_some h.sound ht
  have hdue : e.deadline ≤ now := of_decide_eq_true hdue
  have hor : overdue now l k =
      (decide (e.job.callback = k) || overdue now { l with queue := q } k) := by
    rw [overdue, hl, List.any_cons, decide_eq_true hdue, Bool.true_and]
    rfl
  rw [hor]
  by_cases hk : e.job.callback = k
  · have hnone : overdue now { l with queue := q } k = false := by
      rw [Bool.eq_false_iff]
      intro ho
      obtain ⟨f, hf, -, hfk⟩ := overdue_eq_true.mp ho
      -- it would be the entry that was taken
      have hmem : f ∈ l.queue.live := hl ▸ List.mem_cons_of_mem e hf
      have hef := h.callback_unique (hl ▸ List.mem_cons_self) hmem (hk.trans hfk.symm)
      have hd := Queue.live_distinct h.sound
      rw [hl, List.map_cons, List.nodup_cons, hef] at hd
      exact hd.1 (List.mem_map_of_mem hf)
    rw [hnone, if_pos hk, decide_eq_true hk]
    rfl
  · rw [if_neg hk, decide_eq_false hk, Bool.false_or, Nat.add_zero]

/-- Where nothing but what was overdue before still is, or a tick that the poll of the settings
file asked for, the callback that ran has used up some of its allowance. -/
theorem allowance_of_take (h : InGear l) {e : Entry Rat Job} {q : Queue Rat Job}
    (ht : l.queue.takeDue now = (some e, q))
    (hleft : ∀ k, overdue now m k = true → overdue now { l with queue := q } k = true ∨
      (k = .own .tick ∧ e.job.callback = .poll .settingsFile)) (k : Callback) :
    allowance now m k + (if e.job.callback = k then 1 else 0) ≤ allowance now l k := by
  have hspent : ∀ k, (overdue now m k).toNat ≤ (overdue now { l with queue := q } k).toNat +
      if k = .own .tick ∧ e.job.callback = .poll .settingsFile then 1 else 0 := by
    intro k
    cases hk : overdue now m k with
    | false => exact Nat.zero_le _
    | true =>
      rcases hleft k hk with ho | hfile
      · rw [ho]
        exact Nat.le_add_right _ _
      · rw [if_pos hfile]
        exact Nat.le_add_left _ _
  have htaken := overdue_of_take h ht k
  have hspent_k := hspent k
  rw [allowance, allowance]
  by_cases hk : k = .own .tick
  · -- what the poll of the settings file was granted pays for its tick
    have hfile := overdue_of_take h ht (.poll .settingsFile)
    have hspent_file := hspent (.poll .settingsFile)
    simp only [hk, true_and, if_true, reduceCtorEq, false_and, if_false] at *
    omega
  · simp only [hk, false_and, if_false] at *
    omega

theorem rationed {setup : Setup Rat} {meanwhile : Act Rat Unit} (hm : Elapses meanwhile)
    (hs : setup.reaches = fun _ => true) (hpos : 0 < interval)
    (hfeeds : ∀ feed, 0 < setup.station.interval feed) :
    Rationed (fun l => Poised interval l ∧ now ≤ l.now) (Faulted interval)
      (fireAmid setup meanwhile) now (fun e => e.job.callback) (allowance now) where
  granted l e q := by
    rintro ⟨h, -⟩ ht
    have hk := overdue_of_take h.geared ht e.job.callback
    rw [if_pos rfl] at hk
    rw [allowance]
    omega
  spends l e q := by
    rintro ⟨h, hclock⟩ ht
    let late (k : Callback) : Prop := overdue now { l with queue := q } k = true ∨
      (k = .own .tick ∧ e.job.callback = .poll .settingsFile)
    have hends := awaiting_fire late hm hs hpos h hclock hfeeds ht
      (fun f hf hdue => .inl (overdue_eq_true.mpr ⟨f, hf, hdue, rfl⟩))
      fun hfile => .inr ⟨rfl, hfile⟩
    refine hends.imp (fun m ha => ⟨⟨ha.toPoised, ha.clock⟩, ?_⟩) fun _ _ hf => hf
    refine allowance_of_take h.geared ht fun k hk => ?_
    obtain ⟨f, hf, hdue, rfl⟩ := overdue_eq_true.mp hk
    exact ha.overdue f hf hdue

end Panel

namespace Application

theorem le_atLeast (ms : Nat) (seconds : Rat) : (ms : Rat) ≤ atLeast ms seconds := by
  have hle := Panel.le_later_left ((ms : Rat) / 1000) seconds
  change (ms : Rat) ≤ TimeScale.later ((ms : Rat) / 1000) seconds * 1000
  linarith

theorem sampleInterval_pos (t : Timing Rat) : 0 < sampleInterval t :=
  lt_of_lt_of_le (by norm_num) (le_atLeast 500 t.interval)

theorem pollInterval_pos (t : Timing Rat) : 0 < pollInterval t :=
  lt_of_lt_of_le (by norm_num) (le_atLeast 100 t.poll)

theorem feedInterval_pos (machine : Machine) (t : Timing Rat) (session : LooseText) (p : Plan)
    (feed : Feed) : 0 < (setup machine t session p).station.interval feed := by
  cases feed with
  | interfaces | settingsFile => exact pollInterval_pos t
  | session => exact (pollInterval_pos t).trans_le (Panel.le_later_left _ _)

end Application

namespace Panel

open Loop Indicator

/-- What becomes of the indicator of the program, whatever is done to it and whatever callbacks
the loop starts, however each of them ends. The files and the clock may change at any time. -/
inductive Launched (machine : Application.Machine) (t : Timing Rat) (session : LooseText)
    (p : Application.Plan) : Running Rat → Prop where
  | start (world : World) (seconds : Rat) :
      Launched machine t session p (Application.start machine t p world seconds)
  | operated {l : Running Rat} (h : Launched machine t session p l) (op : Operation) :
      Launched machine t session p (after (op.act (Application.setup machine t session p)) l)
  | fired {l : Running Rat} {time : Rat} {e : Entry Rat Job} {q : Queue Rat Job}
      {meanwhile : Act Rat Unit} (h : Launched machine t session p l)
      (ht : l.queue.takeDue time = (some e, q)) (hm : Elapses meanwhile) :
      Launched machine t session p
        (after (fireAmid (Application.setup machine t session p) meanwhile e) { l with queue := q })
  | looked {l : Running Rat} {time : Rat} {q : Queue Rat Job} (h : Launched machine t session p l)
      (ht : l.queue.takeDue time = (none, q)) : Launched machine t session p { l with queue := q }
  | settled {l : Running Rat} (h : Launched machine t session p l) :
      Launched machine t session p { l with queue := l.queue.settle }
  | around {l m : Running Rat} (h : Launched machine t session p l) (hq : m.queue = l.queue)
      (hs : m.host.slots = l.host.slots) (ho : m.host.owner = l.host.owner) :
      Launched machine t session p m

variable {machine : Application.Machine} {t : Timing Rat} {session : LooseText}
  {p : Application.Plan} {l : Running Rat} {meanwhile : Act Rat Unit}

theorem Launched.poised (h : Launched machine t session p l) :
    Poised (Application.sampleInterval t) l := by
  have hs : (Application.setup machine t session p).reaches = fun _ => true := rfl
  have hpos := Application.sampleInterval_pos t
  induction h with
  | start world seconds => exact ⟨geared_empty, rfl⟩
  | @operated l h op ih =>
    exact ⟨endsIn_iff_after.mp (inGear_operation hs op l ih.geared),
      endsIn_iff_after.mp ((lasting_interval hpos).operation _ op l ih.interval)⟩
  | @fired l time e q meanwhile h ht hm ih =>
    have hends := awaiting_fire (fun _ => True) hm hs hpos ih (le_refl l.now)
      (Application.feedInterval_pos machine t session p) ht (fun _ _ _ => trivial) fun _ => trivial
    exact endsIn_iff_after.mp (hends.imp (fun _ h => h.toPoised) fun _ _ h => h.toPoised)
  | looked h ht ih => exact ⟨ih.geared.idle ht, ih.interval⟩
  | settled h ih => exact ⟨ih.geared.settle, ih.interval⟩
  | around h hq hs ho ih => exact ih.of_eq hq hs ho

theorem Launched.turns (hm : Elapses meanwhile) :
    Turns (Launched machine t session p) (fun _ => Launched machine t session p)
      (fireAmid (Application.setup machine t session p) meanwhile) where
  fires _ _ _ _ h ht := endsIn_iff_after.mpr (h.fired ht hm)
  idles _ _ _ h ht := h.looked ht
  tires _ h := h

theorem lasts_advance (hm : Elapses meanwhile) (turns : Nat) (ms : Rat) :
    Lasts (Launched machine t session p)
      (Loop.advance (fireAmid (Application.setup machine t session p) meanwhile) turns ms) :=
  ends_advance (Launched.turns hm) (fun _ h => h.settled)
    (fun _ _ h => h.around rfl rfl rfl) turns ms

theorem lasts_run (hm : Elapses meanwhile) {sleep : Rat → Act Rat Unit}
    (hsleep : ∀ ms, Aloof (sleep ms)) (turns : Nat) :
    Lasts (Launched machine t session p) (Loop.run
      ⟨fireAmid (Application.setup machine t session p) meanwhile, sleep,
        Station.report [.loopIdle]⟩ turns) := by
  refine ends_run (Launched.turns hm) ?_ turns
  exact {
    settles _ h := h.settled
    sleeps ms l h := endsIn_iff_after.mpr
      (h.around (hsleep ms l).queue (hsleep ms l).slots (hsleep ms l).owner)
    rests _ h := h.around rfl rfl rfl
    started _ _ h := h.around rfl rfl rfl
    stopped _ _ _ h := h.around rfl rfl rfl }

/-- A run through what is due by a time that has come ends, whatever the files hold and however
the clock goes on. It starts each callback once at most, and the tick twice; with seven turns it
has turns enough. Nothing but a fault of a callback breaks it off. -/
theorem due_run_ends (h : Launched machine t session p l) (hm : Elapses meanwhile) {now : Rat}
    (hnow : now ≤ l.now) :
    let fire := fireAmid (Application.setup machine t session p) meanwhile
    ∃ es r, Drains fire now l es r ∧
      (∀ k, (es.map fun e => e.job.callback).count k ≤ if k = .own .tick then 2 else 1) ∧
      (∀ halt m, r = .error halt m → ∃ f, halt = .fault f) ∧
      ∀ turns ran, 6 < turns → runDue fire now turns ran l = counted (ran + es.length) r := by
  have hration : Rationed (fun l => Poised (Application.sampleInterval t) l ∧ now ≤ l.now)
      (Faulted (Application.sampleInterval t))
      (fireAmid (Application.setup machine t session p) meanwhile) now
      (fun e => e.job.callback) (allowance now) :=
    rationed hm rfl (Application.sampleInterval_pos t)
      (Application.feedInterval_pos machine t session p)
  obtain ⟨es, r, hdrains, hr, hcount, hlength⟩ := hration.drains ⟨h.poised, hnow⟩
  have hsix : ∑ k, allowance now l k ≤ 6 :=
    (Finset.sum_le_sum fun k _ => allowance_le now l k).trans (by decide)
  refine ⟨es, r, hdrains, fun k => (hcount k).trans (allowance_le now l k), ?_, ?_⟩
  · rintro halt m rfl
    exact hr.fault
  · intro turns ran hturns
    exact hdrains.runDue (by omega) ran

def withFile (content : String) (time : Stamp) : World where
  found := [("/proc/net/dev", .file .empty 0), ("cfg.json", .file content.toUTF8 time)]

def turnedOff : Running Rat :=
  after ((Operation.deliver (.setting "networktraffic.enabled" (.int 0))).act filedSetup)
    (after (Operation.attach.act filedSetup)
      (Application.start {} ⟨2, 1⟩ filedPlan (withFile "\x7b\x7d" 1) 0))

def laterIn (seconds : Rat) (w : World) (l : Running Rat) : Running Rat :=
  { l with seconds := seconds, host := { l.host with world := w } }

theorem Launched.laterIn (h : Launched machine t session p l) (seconds : Rat) (w : World) :
    Launched machine t session p (Panel.laterIn seconds w l) :=
  h.around rfl rfl rfl

/-- Five seconds later its settings file is there to turn it on. -/
def turnedOn : Running Rat :=
  laterIn 5 (withFile "\x7b\"networktraffic.enabled\": 1\x7d" 2) turnedOff

/-- The tick that was due, three polls, and the tick that the poll of the settings file asks for
run at once. -/
theorem due_run_ends_after_five :
    ∃ es r, Launched {} ⟨2, 1⟩ "" filedPlan turnedOn ∧ (5000 : Rat) ≤ turnedOn.now ∧
      Drains (fire filedSetup) 5000 turnedOn es r ∧ es.length = 5 := by
  have hoff : Launched {} ⟨2, 1⟩ "" filedPlan turnedOff :=
    ((Launched.start _ 0).operated .attach).operated
      (.deliver (.setting "networktraffic.enabled" (.int 0)))
  have hlaunched : Launched {} ⟨2, 1⟩ "" filedPlan turnedOn := hoff.laterIn 5 _
  have hnow : (5000 : Rat) ≤ turnedOn.now := by decide +kernel
  obtain ⟨es, r, hdrains, -, -, hruns⟩ := due_run_ends hlaunched elapses_pure hnow
  have hfire : fireAmid (Application.setup {} ⟨2, 1⟩ "" filedPlan) (pure ()) = fire filedSetup :=
    fireAmid_pure filedSetup
  rw [hfire] at hdrains hruns
  refine ⟨es, r, hlaunched, hnow, hdrains, ?_⟩
  have hfive : (match runDue (fire filedSetup) 5000 7 0 turnedOn with
      | .ok ran _ => ran
      | .error _ _ => 0) = 5 := by
    decide +kernel
  rw [hruns 7 0 (by decide), Nat.zero_add] at hfive
  cases r with
  | ok u m => exact hfive
  | error halt m => cases hfive

end Panel

end TrafficIndicator
