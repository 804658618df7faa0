import TrafficIndicator.Proofs.Detached
import TrafficIndicator.Proofs.TwinLoops

/-!
An attached indicator that is detached is as a new one with its settings, its interval and its
collaborators. Its timers and the polls for it wait no more; what it leaves in the queue is
cancelled. The loop goes on just as a loop does on which a new indicator was made and nothing
was ever queued.
-/
namespace TrafficIndicator.Panel

open Loop Indicator

variable {τ : Type} [TimeScale τ] {finite : τ → Prop} {setup : Setup τ} {l l' m : Running τ}

/-- What may be done on a loop between the turns that it takes by itself. -/
inductive Doing (τ : Type) where
  | operation (op : Operation)
  | advance (ms : τ)
  | runDue (now : τ)
  | moveClock (seconds : τ)
  | change (c : World.Change)
  | counters (c : CounterFeed)

def Doing.act (setup : Setup τ) : Doing τ → Act τ Unit
  | .operation op => op.act setup
  | .advance ms => Panel.advance setup ms
  | .runDue now => do
    let _ ← Loop.runDue (fire setup) now turnLimit 0
  | .moveClock seconds => Loop.moveClock seconds
  | .change c => Loop.modifyHost fun s => { s with world := s.world.change c }
  | .counters c => modifyPanel fun p => { p with counters := c }

def Doing.Proper (finite : τ → Prop) : Doing τ → Prop
  | .runDue now => finite now
  | .moveClock seconds => ∀ t, finite t → finite (TimeScale.add t seconds)
  | _ => True

def doAll (setup : Setup τ) : List (Doing τ) → Running τ → List (Option Halt) × Running τ
  | [], l => ([], l)
  | d :: ds, l =>
    let (m, halt) := Session.runThrough (d.act setup) l
    let (halts, n) := doAll setup ds m
    (halt :: halts, n)

theorem inStep_doing (hc : TimeScale.Closed finite) (hs : setup.reaches = fun _ => true)
    {d : Doing τ} (hd : d.Proper finite) : InStep finite (d.act setup) := by
  cases d with
  | operation op => exact inStep_operation hc hs op
  | advance ms => exact (abreast hc hs).advance _ ms
  | runDue now =>
    exact lockstep_bind ((abreast hc hs).runDue hd _ 0) fun _ => lockstep_pure _
  | moveClock seconds =>
    rintro _ _ ⟨l, h, hl⟩
    exact Alike.ok () (.of { l with seconds := TimeScale.add l.seconds seconds } h (hd _ hl))
  | change c =>
    rw [Doing.act]
    exact inStep_modifyHost fun _ _ => rfl
  | counters c =>
    rw [Doing.act]
    exact inStep_modifyHost fun _ _ => rfl

omit [TimeScale τ] in
theorem alike_runThrough {E : Running τ → Running τ → Prop} {x : Act τ Unit}
    (h : Alike E (x l) (x m)) :
    (Session.runThrough x l).2 = (Session.runThrough x m).2 ∧
      E (Session.runThrough x l).1 (Session.runThrough x m).1 := by
  rw [Session.runThrough, Session.runThrough, EStateM.run, EStateM.run]
  generalize x l = r at h
  generalize x m = r' at h
  cases h with
  | ok a h => exact ⟨rfl, h⟩
  | error e h => exact ⟨rfl, h⟩

/-- Twins that the same is done to stay twins, and halt at the same things. -/
theorem twins_doAll (hc : TimeScale.Closed finite) (hs : setup.reaches = fun _ => true)
    {ds : List (Doing τ)} (hd : ∀ d ∈ ds, d.Proper finite) (h : Twins finite l m) :
    (doAll setup ds l).1 = (doAll setup ds m).1 ∧
      Twins finite (doAll setup ds l).2 (doAll setup ds m).2 := by
  induction ds generalizing l m with
  | nil => exact ⟨rfl, h⟩
  | cons d ds ih =>
    have hstep := inStep_doing hc hs (hd d List.mem_cons_self) l m h
    obtain ⟨hhalt, htwins⟩ := alike_runThrough hstep
    obtain ⟨hhalts, hend⟩ := ih (fun e he => hd e (List.mem_cons_of_mem _ he)) htwins
    exact ⟨congrArg₂ List.cons hhalt hhalts, hend⟩

/-- The loops of an indicator that began with nothing in the queue. What was done may have
halted, the loop may have stopped at any turn, and in between anything may change but the
slots and the queue. -/
inductive Shared (finite : τ → Prop) : Running τ → Prop where
  | fresh {l : Running τ} (hg : gear l = {}) (hl : finite l.seconds) : Shared finite l
  | did {l : Running τ} (h : Shared finite l) {setup : Setup τ}
      (hs : setup.reaches = fun _ => true) {d : Doing τ} (hd : d.Proper finite) :
      Shared finite (after (d.act setup) l)
  | turned {l : Running τ} (h : Shared finite l) {setup : Setup τ}
      (hs : setup.reaches = fun _ => true) {now : τ} (hn : finite now) {e : Entry τ Job}
      {q : Queue τ Job} (ht : l.queue.takeDue now = (some e, q)) :
      Shared finite (after (fire setup e) { l with queue := q })
  | around {l l' : Running τ} (h : Shared finite l) (hg : gear l' = gear l)
      (hl : finite l'.seconds) : Shared finite l'

theorem Shared.fits (hc : TimeScale.Closed finite) (h : Shared finite l) :
    (gear l).Fits finite ∧ finite l.seconds := by
  induction h with
  | fresh hg hl =>
    rw [hg]
    exact ⟨Gear.fits_empty, hl⟩
  | did h hs hd ih =>
    exact (inStep_doing hc hs hd _ _ (twins_self ih.1 ih.2)).after.fits
  | @turned l h setup hs now hn e q ht ih =>
    have hself : (gear l).Meshes finite (gear l) := ⟨ih.1, ih.1, rfl⟩
    obtain ⟨f, r, hr, halike⟩ := alike_fire hc hs hself ih.2 hn ht
    cases ht.symm.trans hr
    exact halike.after.fits
  | around h hg hl ih =>
    rw [hg]
    exact ⟨ih.1, hl⟩

def Ended (id : Nat) (l : Running τ) : Prop :=
  ∀ w, l.host.watches[id]? = some w →
    w.active = false ∧ ∀ e ∈ l.queue.live, Ledger.pollFeed e.job ≠ some w.feed

omit [TimeScale τ] in
/-- What is done to each of a list, and undone by none, holds of all of them in the end. -/
theorem forM_establishes {γ : Type} {P : Running τ → Prop} {Q : γ → Running τ → Prop}
    {f : γ → Act τ PUnit}
    (step : ∀ x l m u, f x l = .ok u m → P l → P m ∧ Q x m ∧ ∀ y, Q y l → Q y m)
    (xs : List γ) {u : PUnit} (hr : xs.forM f l = .ok u m) (hp : P l) :
    P m ∧ (∀ x ∈ xs, Q x m) ∧ ∀ y, Q y l → Q y m := by
  induction xs generalizing l with
  | nil =>
    obtain ⟨-, rfl⟩ := pure_ok.mp hr
    exact ⟨hp, fun x hx => (List.not_mem_nil hx).elim, fun _ h => h⟩
  | cons x xs ih =>
    obtain ⟨u, k, hk, hr⟩ := bind_ok.mp hr
    obtain ⟨hpk, hx, hkeep⟩ := step x l k u hk hp
    obtain ⟨hpm, hxs, hkeeps⟩ := ih hr hpk
    refine ⟨hpm, fun y hy => ?_, fun y hy => hkeeps y (hkeep y hy)⟩
    rcases List.mem_cons.mp hy with rfl | hy
    · exact hkeeps _ hx
    · exact hxs y hy

omit [TimeScale τ] in
theorem unwatch_ok {id : Nat} {w : Watch} (hw : l.host.watches[id]? = some w) {u : Unit}
    (hr : Station.unwatch id l = .ok u m) :
    m.host.watches = l.host.watches.modify id (fun w => { w with active := false }) ∧
      (m.host.slots, m.queue) = l.host.slots.disarm (fun _ => true) w.feed l.queue ∧
      m.host.owner = l.host.owner ∧
      m.host.file.listening = (l.host.file.listening && w.feed ≠ .settingsFile) := by
  rw [Station.unwatch, get_bind_ok, hw] at hr
  obtain ⟨_, k, hk, hr⟩ := bind_ok.mp hr
  obtain rfl := modify_ok.mp hk
  obtain ⟨_, n, hn, hr⟩ := bind_ok.mp hr
  obtain rfl := modify_ok.mp hn
  split at hr <;> rename_i hfeed
  · obtain rfl := modify_ok.mp hr
    exact ⟨rfl, rfl, rfl, by simp [hfeed]⟩
  · obtain ⟨-, rfl⟩ := pure_ok.mp hr
    exact ⟨rfl, rfl, rfl, by simp [hfeed]⟩

theorem unwatch_ends {id : Nat} {u : Unit} (hr : Station.unwatch id l = .ok u m)
    (hg : InGear l) : InGear m ∧ Ended id m ∧ ∀ i, Ended i l → Ended i m := by
  cases hw : l.host.watches[id]? with
  | none =>
    rw [Station.unwatch, get_bind_ok, hw] at hr
    obtain ⟨-, rfl⟩ := pure_ok.mp hr
    refine ⟨hg, ?_, fun _ h => h⟩
    intro w hsome
    cases hw.symm.trans hsome
  | some w =>
    obtain ⟨hwatches, hpolls, howner, -⟩ := unwatch_ok hw hr
    obtain ⟨hslots, hqueue⟩ := Prod.mk.inj hpolls
    have hlive : ∀ e ∈ m.queue.live, e ∈ l.queue.live ∧ Ledger.pollFeed e.job ≠ some w.feed := by
      intro e he
      rw [hqueue] at he
      exact (Slots.mem_live_disarm_iff hg.sound hg.polls).mp he
    refine ⟨?_, fun v hv => ?_, fun i hi v hv => ?_⟩
    · rw [InGear, hslots, hqueue, howner]
      exact Geared.disarmPoll hg w.feed
    · rw [hwatches, List.getElem?_modify_eq, hw] at hv
      cases hv
      exact ⟨rfl, fun e he => (hlive e he).2⟩
    · rw [hwatches, List.getElem?_modify] at hv
      obtain ⟨v₀, hv₀, rfl⟩ := Option.map_eq_some_iff.mp hv
      obtain ⟨hactive, hnone⟩ := hi v₀ hv₀
      split
      · exact ⟨rfl, fun e he => hnone e (hlive e he).1⟩
      · exact ⟨hactive, fun e he => hnone e (hlive e he).1⟩

theorem detach_ends (hs : setup.reaches = fun _ => true) (hg : InGear l) {u : Unit}
    (hr : detach setup l = .ok u l') :
    ∀ ids ∈ l.host.owner.watches, ∀ id ∈ ids, Ended id l' := by
  obtain ⟨m, k, hm, hk, hleave⟩ := detach_ok hr
  have howner : m.host.owner.watches = l.host.owner.watches := by rw [onTimers_ok.mp hm]
  have hgm : InGear m := by
    rw [onTimers_ok.mp hm, hs]
    exact Geared.disarmAll hg
  have heach : ∀ (ids : List Nat) (j n : Running τ) u,
      (ids.forM Station.unwatch : Act τ PUnit) j = .ok u n →
      InGear j → InGear n ∧ (∀ id ∈ ids, Ended id n) ∧
        ∀ others : List Nat, (∀ id ∈ others, Ended id j) → ∀ id ∈ others, Ended id n := by
    intro ids j n u hn hj
    obtain ⟨hgn, hended, hkeep⟩ := forM_establishes (fun _ _ _ _ => unwatch_ends) ids hn hj
    exact ⟨hgn, hended, fun others ho id hid => hkeep id (ho id hid)⟩
  obtain ⟨-, hended, -⟩ := forM_establishes heach m.host.owner.watches hk hgm
  have hqueue : l'.queue = k.queue := by
    have ht := congrArg Prod.snd hleave.timing
    rw [leave_spec.2.1] at ht
    exact ht
  intro ids hids id hid w hw
  rw [← howner] at hids
  rw [hleave.beside.polls] at hw
  rw [hqueue]
  exact hended ids hids id hid w hw

omit [TimeScale τ] in
/-- A panel as it is made, with the settings, the interval, the nesting limit, the screen and the
counters of another. -/
def anew (p : Panel τ) : Panel τ where
  indicator := {
    settings := p.indicator.settings
    sampler := { interval := p.indicator.sampler.interval }
    nesting := p.indicator.nesting }
  screen := p.screen
  counters := p.counters

omit [TimeScale τ] in
/-- The loop with a new panel, on which nothing has been queued. -/
def renewed (l : Running τ) : Running τ :=
  { l with queue := {}, host := { l.host with slots := {}, owner := anew l.host.owner } }

/-- An attached indicator that is detached is as a new one with its settings and its interval;
detaching it again changes nothing. None of its timers waits, its watches are over, and no poll
for them waits. Where nothing else waits either, the loop is a twin of one on which a new
indicator was made and nothing has been queued; and whatever is done then to it and a twin of
it halts at the same things, leaves the same kinds armed and the same works waiting, and
leaves everything else the same. -/
theorem detach_starts_afresh (hc : TimeScale.Closed finite) (h : Shared finite l)
    (ha : l.host.owner.indicator.attached = true) (hs : setup.reaches = fun _ => true) :
    ∃ l', detach setup l = .ok () l' ∧ l'.host.owner = anew l.host.owner ∧
      detach setup l' = .ok () l' ∧
      (∀ e ∈ l'.queue.live, ∀ kind, e.job ≠ .own kind) ∧
      (∀ ids ∈ l.host.owner.watches, ∀ id ∈ ids, Ended id l') ∧
      (l'.queue.live = [] → Twins finite l' (renewed l')) ∧
      ∀ m, Twins finite l' m → ∀ ds : List (Doing τ), (∀ d ∈ ds, d.Proper finite) →
        let one := doAll setup ds l'
        let other := doAll setup ds m
        one.1 = other.1 ∧ other.2 = withGear one.2 (gear other.2) ∧
          one.2.queue.works = other.2.queue.works ∧
          ∀ kind, one.2.host.owner.timers.isArmed kind =
            other.2.host.owner.timers.isArmed kind := by
  obtain ⟨hfits, hl⟩ := h.fits hc
  obtain ⟨l', hl', hleft⟩ := detach_total setup l
  have howner : l'.host.owner = anew l.host.owner := by
    rw [hleft, leave_spec.1, if_pos ha]
    rfl
  have htwins : Twins finite l' l' := by
    have halike := (inStep_detach hc hs l l (twins_self hfits hl)).after
    rwa [after_of_ok hl'] at halike
  obtain ⟨hfits', hl''⟩ := htwins.fits
  have hstill : Still l' := by
    refine ⟨?_, ?_, ?_, ?_⟩ <;> rw [howner] <;> rfl
  refine ⟨l', hl', howner, hstill.detach, ?_, detach_ends hs hfits.geared hl', ?_, ?_⟩
  · intro e he kind hj
    have hheld := hfits'.geared.timers.held e he kind (ownKind_eq_some.mpr hj)
    rw [show (gear l').timers = {} from hstill.timers] at hheld
    cases hheld
  · intro hnone
    have hsame : renewed l' = withGear l' {} := by
      rw [renewed, withGear, howner]
      rfl
    have hmeshes : (gear l').Meshes finite {} := by
      refine ⟨hfits', Gear.fits_empty, ?_⟩
      change l'.queue.live.map _ = []
      rw [hnone]
      rfl
    rw [hsame]
    exact .of l' (g := gear l') hmeshes hl''
  · intro m hm ds hd
    obtain ⟨hhalts, hend⟩ := twins_doAll hc hs hd hm
    refine ⟨hhalts, ?_⟩
    generalize (doAll setup ds l').2 = one at hend
    generalize (doAll setup ds m).2 = other at hend
    obtain ⟨k, hmeshes, -⟩ := hend
    exact ⟨rfl, hmeshes.works, hmeshes.isArmed⟩

/-- The interfaces are polled, and nothing else is watched. -/
def watchful : Setup Rat := { secluded with collaborators := { connectivity := some .polled } }

/-- A tick, a refresh and a poll waited when the indicator was detached, and their entries are
still in the queue. Attached again, it shows what a new one shows. -/
theorem second_attachment_like_first :
    ∃ l l' : Running Rat, Shared (fun _ => True) l ∧ l.queue.liveCount = 3 ∧
      detach watchful l = .ok () l' ∧ l'.queue.liveCount = 0 ∧ l'.queue.entries.length = 3 ∧
      let again : List (Doing Rat) := [.operation .attach, .advance 2500]
      (doAll watchful again l').2.queue.liveCount = 2 ∧
        (doAll watchful again (renewed l')).2.host.owner.screen =
          (doAll watchful again l').2.host.owner.screen := by
  let joined := after (Doing.act watchful (.operation .attach)) (made { enabled := true } {})
  let later := after (Doing.act watchful (.advance 2500)) joined
  let d : Delivery := .setting "networktraffic.unittype" (.int 1)
  let changed := after (Doing.act watchful (.operation (.deliver d))) later
  have hmade : Shared (fun _ => True) (made { enabled := true } {}) := .fresh rfl trivial
  have hreal : watchful.reaches = fun _ => true := rfl
  have hjoined : Shared (fun _ => True) joined := hmade.did hreal trivial
  have hlater : Shared (fun _ => True) later := hjoined.did hreal trivial
  have hchanged : Shared (fun _ => True) changed := hlater.did hreal trivial
  have hattached : changed.host.owner.indicator.attached = true := by decide +kernel
  obtain ⟨l', hl', -, -, -, -, hnew, htwins⟩ :=
    detach_starts_afresh TimeScale.closed_exact hchanged hattached hreal
  have hleft : l' = after (detach watchful) changed := (after_of_ok hl').symm
  have hwaiting : l'.queue.liveCount = 0 := by
    rw [hleft]
    decide +kernel
  have hproper : ∀ e ∈ ([.operation .attach, .advance 2500] : List (Doing Rat)),
      e.Proper fun _ => True := by
    simp [Doing.Proper]
  obtain ⟨-, hsame, -⟩ :=
    htwins _ (hnew (List.eq_nil_of_length_eq_zero hwaiting)) _ hproper
  refine ⟨changed, l', hchanged, by decide +kernel, hl', hwaiting, ?_, ?_, ?_⟩
  · rw [hleft]
    decide +kernel
  · rw [hleft]
    decide +kernel
  · rw [hsame]
    rfl

end TrafficIndicator.Panel
