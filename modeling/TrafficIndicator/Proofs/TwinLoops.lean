import TrafficIndicator.Proofs.Lockstep
import TrafficIndicator.Proofs.SharedLoop

/-!
Two loops of an indicator are twins if they differ in their slots and queues alone, and the
same works wait in both. Tokens and cancelled entries are then all that differs, and nothing
that the indicator, its collaborators or the loop do tells them apart: twins stay twins, answer
the same and halt for the same reason.
-/
namespace TrafficIndicator

/-- What comes after a finite time is one, and so is a deadline on a clock that shows one. -/
structure TimeScale.Closed {τ : Type} [TimeScale τ] (finite : τ → Prop) : Prop
    extends TimeScale.Orders finite where
  after : ∀ a b, finite a → before a b = true → finite b
  due : ∀ s d, finite s → finite (add (ofSeconds s) (delay d))

theorem TimeScale.closed_exact : TimeScale.Closed (fun _ : Rat => True) where
  toOrders := TimeScale.orders_exact
  after _ _ _ _ := trivial
  due _ _ _ := trivial

theorem TimeScale.closed_rounded : TimeScale.Closed (fun t : Float => 0 ≤ t) where
  toOrders := TimeScale.orders_rounded.imp fun _ => Rounded.isNaN_of_nonneg
  after a b ha h := by
    have hlt : a < b := of_decide_eq_true h
    obtain ⟨hna, hnb⟩ := Rounded.isNaN_of_lt hlt
    exact Rounded.le_trans (by decide) hna hnb ha (Rounded.le_of_lt hlt)
  due s d hs := by
    refine Rounded.nonneg_add (Rounded.nonneg_mul hs) ?_
    have hzero : (TimeScale.zero : Float) = 0 := by rfl
    rw [delay, TimeScale.later, hzero]
    split
    · rename_i h
      exact Rounded.le_of_lt (of_decide_eq_true h)
    · exact Rounded.le_refl (by decide)

theorem TimeScale.Closed.later {τ : Type} [TimeScale τ] {finite : τ → Prop}
    (hc : TimeScale.Closed finite) {a : τ} (ha : finite a) (b : τ) :
    finite (TimeScale.later a b) := by
  rw [TimeScale.later]
  split
  · rename_i hb
    exact hc.after a b ha hb
  · exact ha

namespace Panel

open Loop Indicator

variable {τ : Type} [TimeScale τ] {finite : τ → Prop}

structure Gear (τ : Type) where
  timers : Slots TimerKind := {}
  slots : Slots Feed := {}
  queue : Queue τ Job := {}

namespace Gear

omit [TimeScale τ] in
def onTimers (f : Slots TimerKind → Queue τ Job → Slots TimerKind × Queue τ Job) (g : Gear τ) :
    Gear τ :=
  { g with timers := (f g.timers g.queue).1, queue := (f g.timers g.queue).2 }

omit [TimeScale τ] in
def onSlots (f : Slots Feed → Queue τ Job → Slots Feed × Queue τ Job) (g : Gear τ) : Gear τ :=
  { g with slots := (f g.slots g.queue).1, queue := (f g.slots g.queue).2 }

structure Fits (finite : τ → Prop) (g : Gear τ) : Prop where
  geared : Geared g.timers g.slots g.queue
  sorted : Queue.Sorted finite g.queue.entries

theorem fits_empty : Fits finite ({} : Gear τ) where
  geared := geared_empty
  sorted := ⟨List.Pairwise.nil, fun _ h => (List.not_mem_nil h).elim⟩

structure Meshes (finite : τ → Prop) (g g' : Gear τ) : Prop where
  left : Fits finite g
  right : Fits finite g'
  works : g.queue.works = g'.queue.works

variable {g g' : Gear τ} {q : Queue τ Job}

theorem Fits.disarm (h : Fits finite g) (kind : TimerKind) :
    Fits finite (g.onTimers fun s q => s.disarm (fun _ => true) kind q) where
  geared := h.geared.disarm kind
  sorted := by
    change Queue.Sorted finite (g.timers.disarm _ kind g.queue).2.entries
    rw [Slots.entries_disarm]
    exact h.sorted

theorem Meshes.disarm (h : Meshes finite g g') (kind : TimerKind) :
    Meshes finite (g.onTimers fun s q => s.disarm (fun _ => true) kind q)
      (g'.onTimers fun s q => s.disarm (fun _ => true) kind q) where
  left := h.left.disarm kind
  right := h.right.disarm kind
  works := by
    have hl := h.left.geared
    have hr := h.right.geared
    refine (Slots.works_disarm hl.sound hl.timers kind).trans ?_
    rw [h.works]
    exact (Slots.works_disarm hr.sound hr.timers kind).symm

theorem Fits.arm (ho : TimeScale.Orders finite) (h : Fits finite g) (kind : TimerKind)
    {deadline : τ} (hf : finite deadline) :
    Fits finite (g.onTimers fun s q => s.arm (fun _ => true) kind deadline (.own kind) q) where
  geared := h.geared.arm kind deadline
  sorted := Slots.sorted_arm ho h.geared.sound h.sorted hf _ kind _

theorem Meshes.arm (ho : TimeScale.Orders finite) (h : Meshes finite g g') (kind : TimerKind)
    {deadline : τ} (hf : finite deadline) :
    Meshes finite (g.onTimers fun s q => s.arm (fun _ => true) kind deadline (.own kind) q)
      (g'.onTimers fun s q => s.arm (fun _ => true) kind deadline (.own kind) q) where
  left := h.left.arm ho kind hf
  right := h.right.arm ho kind hf
  works := Slots.works_arm ho h.left.geared.sound h.right.geared.sound h.left.sorted
    h.right.sorted h.left.geared.timers h.right.geared.timers h.works kind hf _

/-- Once all timers are disarmed, what waits is what waited beside them. -/
theorem works_disarmAll (h : Fits finite g) :
    let g' := g.onTimers fun s q => s.disarmAll (fun _ => true) q
    Fits finite g' ∧ g'.queue.works = g.queue.works.filter fun w => (ownKind w.2).isNone := by
  let Others (s : Slots TimerKind) (q : Queue τ Job) : Prop :=
    Fits finite ⟨s, g.slots, q⟩ ∧
      (q.works.filter fun w => (ownKind w.2).isNone) =
        g.queue.works.filter fun w => (ownKind w.2).isNone
  have hstep : ∀ s q kind, Others s q →
      Others (s.disarm (fun _ => true) kind q).1 (s.disarm (fun _ => true) kind q).2 := by
    rintro s q kind ⟨hfits, hsame⟩
    refine ⟨hfits.disarm kind, ?_⟩
    rw [Slots.works_disarm hfits.geared.sound hfits.geared.timers kind, List.filter_filter, ← hsame]
    refine List.filter_congr fun w _ => ?_
    cases hk : ownKind w.2 with
    | none => simp
    | some k => simp
  obtain ⟨hfits, hsame⟩ := Slots.disarmAll_keeps hstep (⟨h, rfl⟩ : Others g.timers g.queue)
  refine ⟨hfits, (List.filter_eq_self.mpr fun w hw => ?_).symm.trans hsame⟩
  -- a timer of the indicator that waits would be in a slot, and they are empty
  obtain ⟨e, he, rfl⟩ := List.mem_map.mp hw
  rw [Option.isNone_iff_eq_none]
  cases hk : ownKind (Queue.work e).2 with
  | none => rfl
  | some kind =>
    have hheld := hfits.geared.timers.held e he kind hk
    rw [Slots.token?_disarmAll] at hheld
    cases hheld

theorem Meshes.disarmAll (h : Meshes finite g g') :
    Meshes finite (g.onTimers fun s q => s.disarmAll (fun _ => true) q)
      (g'.onTimers fun s q => s.disarmAll (fun _ => true) q) where
  left := (works_disarmAll h.left).1
  right := (works_disarmAll h.right).1
  works := by
    rw [(works_disarmAll h.left).2, (works_disarmAll h.right).2, h.works]

theorem Fits.disarmPoll (h : Fits finite g) (feed : Feed) :
    Fits finite (g.onSlots fun s q => s.disarm (fun _ => true) feed q) where
  geared := h.geared.disarmPoll feed
  sorted := by
    change Queue.Sorted finite (g.slots.disarm _ feed g.queue).2.entries
    rw [Slots.entries_disarm]
    exact h.sorted

theorem Meshes.disarmPoll (h : Meshes finite g g') (feed : Feed) :
    Meshes finite (g.onSlots fun s q => s.disarm (fun _ => true) feed q)
      (g'.onSlots fun s q => s.disarm (fun _ => true) feed q) where
  left := h.left.disarmPoll feed
  right := h.right.disarmPoll feed
  works := by
    have hl := h.left.geared
    have hr := h.right.geared
    refine (Slots.works_disarm hl.sound hl.polls feed).trans ?_
    rw [h.works]
    exact (Slots.works_disarm hr.sound hr.polls feed).symm

theorem Fits.armPoll (ho : TimeScale.Orders finite) (h : Fits finite g) (feed : Feed)
    {deadline : τ} (hf : finite deadline) (id : Nat) :
    Fits finite (g.onSlots fun s q => s.arm (fun _ => true) feed deadline (.poll feed id) q) where
  geared := h.geared.armPoll feed deadline id
  sorted := Slots.sorted_arm ho h.geared.sound h.sorted hf _ feed _

theorem Meshes.armPoll (ho : TimeScale.Orders finite) (h : Meshes finite g g') (feed : Feed)
    {deadline : τ} (hf : finite deadline) (id : Nat) :
    Meshes finite (g.onSlots fun s q => s.arm (fun _ => true) feed deadline (.poll feed id) q)
      (g'.onSlots fun s q => s.arm (fun _ => true) feed deadline (.poll feed id) q) where
  left := h.left.armPoll ho feed hf id
  right := h.right.armPoll ho feed hf id
  works := Slots.works_arm ho h.left.geared.sound h.right.geared.sound h.left.sorted
    h.right.sorted h.left.geared.polls h.right.geared.polls h.works feed hf _

theorem Fits.settle (h : Fits finite g) : Fits finite { g with queue := g.queue.settle } where
  geared := h.geared.settle
  sorted := h.sorted.sublist
    (Queue.dropped_dropCancelled _ h.geared.sound.tidy).suffix.sublist

theorem Meshes.settle (h : Meshes finite g g') :
    Meshes finite { g with queue := g.queue.settle } { g' with queue := g'.queue.settle } where
  left := h.left.settle
  right := h.right.settle
  works := by
    rw [Queue.works, Queue.works, Queue.live_settle h.left.geared.sound,
      Queue.live_settle h.right.geared.sound]
    exact h.works

theorem Fits.idle {now : τ} (h : Fits finite g) (ht : g.queue.takeDue now = (none, q)) :
    Fits finite { g with queue := q } where
  geared := h.geared.idle ht
  sorted := h.sorted.sublist (Queue.takeDue_suffix h.geared.sound ht).sublist

theorem Fits.takeOwn {now : τ} {e : Entry τ Job} {kind : TimerKind} (h : Fits finite g)
    (ht : g.queue.takeDue now = (some e, q)) (hj : e.job = .own kind) :
    Fits finite { g with timers := g.timers.release kind e.token, queue := q } where
  geared := h.geared.takeOwn ht hj
  sorted := h.sorted.sublist (Queue.takeDue_suffix h.geared.sound ht).sublist

theorem Fits.takePoll {now : τ} {e : Entry τ Job} {feed : Feed} {id : Nat} (h : Fits finite g)
    (ht : g.queue.takeDue now = (some e, q)) (hj : e.job = .poll feed id) :
    Fits finite { g with slots := g.slots.release feed e.token, queue := q } where
  geared := h.geared.takePoll ht hj
  sorted := h.sorted.sublist (Queue.takeDue_suffix h.geared.sound ht).sublist

theorem Meshes.isArmed (h : Meshes finite g g') (kind : TimerKind) :
    g.timers.isArmed kind = g'.timers.isArmed kind := by
  have hdue : ∀ q : Queue τ Job, due q kind =
      (q.works.find? fun w => w.2 = .own kind).map Prod.fst := by
    intro q
    rw [due, Queue.works, List.find?_map, Option.map_map]
    rfl
  rw [Bool.eq_iff_iff, h.left.geared.isArmed_iff, h.right.geared.isArmed_iff, hdue, hdue, h.works]

end Gear

omit [TimeScale τ] in
def withGear (l : Running τ) (g : Gear τ) : Running τ :=
  { l with
    queue := g.queue
    host := { l.host with
      slots := g.slots
      owner := { l.host.owner with timers := g.timers } } }

omit [TimeScale τ] in
def gear (l : Running τ) : Gear τ := ⟨l.host.owner.timers, l.host.slots, l.queue⟩

inductive Twins (finite : τ → Prop) : Running τ → Running τ → Prop where
  | of (l : Running τ) {g g' : Gear τ} (h : g.Meshes finite g') (hc : finite l.seconds) :
      Twins finite (withGear l g) (withGear l g')

variable {l m : Running τ}

theorem twins_self (h : (gear l).Fits finite) (hl : finite l.seconds) : Twins finite l l := by
  have hself : (gear l).Meshes finite (gear l) := ⟨h, h, rfl⟩
  exact Twins.of l hself hl

theorem Twins.fits (h : Twins finite l m) : (gear l).Fits finite ∧ finite l.seconds := by
  obtain ⟨l, hm, hl⟩ := h
  exact ⟨hm.left, hl⟩

abbrev InStep {α : Type} (finite : τ → Prop) (x : Act τ α) : Prop := Lockstep (Twins finite) x

section Steps

variable {α : Type}

theorem inStep_get {f : Running τ → Act τ α} (hf : ∀ l g, f (withGear l g) = f l)
    (h : ∀ l, finite l.seconds → InStep finite (f l)) : InStep finite (get >>= f) := by
  rintro _ _ ⟨l, hm, hc⟩
  rw [bind_get, bind_get, hf, hf]
  exact h l hc _ _ (.of l hm hc)

theorem inStep_modifyHost {f : Station τ (Panel τ) → Station τ (Panel τ)}
    (hf : ∀ (l : Running τ) g,
      { withGear l g with host := f (withGear l g).host } =
        withGear { l with host := f l.host } g) :
    InStep finite (modifyHost f : Act τ Unit) := by
  rintro _ _ ⟨l, hm, hc⟩
  have hwritten : ∀ g, (modifyHost f : Act τ Unit) (withGear l g) =
      .ok () (withGear { l with host := f l.host } g) := fun g => congrArg _ (hf l g)
  rw [hwritten, hwritten]
  exact .ok () (.of _ hm hc)

theorem inStep_onTimers {f : Slots TimerKind → Queue τ Job → Slots TimerKind × Queue τ Job}
    (hf : ∀ g g' : Gear τ, g.Meshes finite g' →
      (g.onTimers f).Meshes finite (g'.onTimers f)) :
    InStep finite (onTimers f : Act τ Unit) := by
  rintro _ _ ⟨l, hm, hc⟩
  exact Alike.ok () (Twins.of l (hf _ _ hm) hc)

theorem inStep_onSlots {f : Slots Feed → Queue τ Job → Slots Feed × Queue τ Job}
    (hf : ∀ g g' : Gear τ, g.Meshes finite g' → (g.onSlots f).Meshes finite (g'.onSlots f)) :
    InStep finite (Station.onSlots f : Act τ Unit) := by
  rintro _ _ ⟨l, hm, hc⟩
  exact Alike.ok () (Twins.of l (hf _ _ hm) hc)

end Steps

section Watching

variable {listen : Station.Listener τ (Panel τ)} {setup : Station.Setup τ}

theorem inStep_modifyFile (f : FileMemory → FileMemory) :
    InStep finite (Station.modifyFile f : Act τ Unit) := inStep_modifyHost fun _ _ => rfl

theorem inStep_report (ns : List (Notice τ)) : InStep finite (Station.report ns : Act τ Unit) :=
  inStep_modifyHost fun _ _ => rfl

theorem inStep_modifyWatch (id : Nat) (f : Watch → Watch) :
    InStep finite (Station.modifyWatch id f : Act τ Unit) := inStep_modifyHost fun _ _ => rfl

theorem inStep_observe {α : Type} (o : Observed τ α) :
    InStep finite (Station.observe o : Act τ α) := by
  refine lockstep_bind (inStep_report _) fun _ => ?_
  cases o.outcome with
  | ok a => exact lockstep_pure a
  | error f => exact lockstep_throw _

theorem inStep_unwatch (id : Nat) : InStep finite (Station.unwatch id : Act τ Unit) := by
  refine inStep_get (fun _ _ => rfl) fun l _ => ?_
  split
  · exact lockstep_pure _
  · refine lockstep_bind (inStep_modifyWatch _ _) fun _ => ?_
    refine lockstep_bind (inStep_onSlots fun _ _ h => h.disarmPoll _) fun _ => ?_
    exact lockstep_ite (inStep_modifyFile _) (lockstep_pure _)

theorem inStep_armPoll (hc : TimeScale.Closed finite) (feed : Feed) (id : Nat) :
    InStep finite (Station.armPoll setup feed id : Act τ Unit) :=
  inStep_get (fun _ _ => rfl) fun l hl => inStep_onSlots fun _ _ h =>
    h.armPoll hc.toOrders feed (hc.due l.seconds _ hl) id

variable (h : ∀ d, InStep finite (listen d))

include h

theorem inStep_reload : InStep finite (Station.reload setup listen) := by
  refine inStep_get (fun _ _ => rfl) fun l _ => lockstep_bind (inStep_observe _) fun found => ?_
  cases found with
  | none => exact lockstep_pure _
  | some entries =>
    refine lockstep_bind (inStep_modifyFile _) fun _ => lockstep_ite ?_ (lockstep_pure _)
    refine lockstep_forM _ fun _ => lockstep_bind (inStep_report _) fun _ => ?_
    refine inStep_get (fun _ _ => rfl) fun _ _ => ?_
    exact lockstep_ite (h _) (lockstep_throw _)

theorem inStep_look : InStep finite (Station.look setup listen) := by
  have hstamp : InStep finite (do return (← get).host.file.stamp : Act τ (Option Stamp)) :=
    inStep_get (fun _ _ => rfl) fun _ _ => lockstep_pure _
  refine inStep_get (fun _ _ => rfl) fun l _ => ?_
  dsimp only
  split
  · exact lockstep_throw _
  · exact lockstep_pure _
  · refine lockstep_ite ?_ hstamp
    exact lockstep_bind (inStep_modifyFile _) fun _ =>
      lockstep_bind (inStep_reload h) fun _ => hstamp

theorem inStep_ask (feed : Feed) : InStep finite (Station.ask setup listen feed) := by
  cases feed with
  | interfaces =>
    exact inStep_get (fun _ _ => rfl) fun _ _ =>
      lockstep_bind (inStep_observe _) fun _ => lockstep_pure _
  | session =>
    have hrest : InStep finite (do
        return Sighting.flag
          (← Station.observe ((← get).host.world.locked setup.session)) : Act τ Sighting) :=
      inStep_get (fun _ _ => rfl) fun _ _ =>
        lockstep_bind (inStep_observe _) fun _ => lockstep_pure _
    rw [Station.ask]
    exact lockstep_ite (lockstep_bind (inStep_modifyHost fun _ _ => rfl) fun _ => hrest) hrest
  | settingsFile => exact lockstep_bind (inStep_look h) fun _ => lockstep_pure _

theorem inStep_tell (feed : Feed) (s : Sighting) : InStep finite (Station.tell listen feed s) := by
  rw [Station.tell.eq_def]
  split
  · exact h _
  · exact h _
  · exact lockstep_pure _

theorem inStep_watch (hc : TimeScale.Closed finite) (feed : Feed) :
    InStep finite (Station.watch setup listen feed) := by
  have hrest : ∀ id, InStep finite (do
      modifyHost fun s => { s with watches := s.watches ++ [{ feed := feed }] }
      let seen ← Station.ask setup listen feed
      Station.modifyWatch id fun w => { w with last := some seen }
      Station.tell listen feed seen
      Station.armPoll setup feed id
      return id : Act τ Nat) := fun id =>
    lockstep_bind (inStep_modifyHost fun _ _ => rfl) fun _ =>
      lockstep_bind (inStep_ask h feed) fun seen =>
        lockstep_bind (inStep_modifyWatch _ _) fun _ => lockstep_bind (inStep_tell h feed seen)
          fun _ => lockstep_bind (inStep_armPoll hc feed id) fun _ => lockstep_pure id
  refine inStep_get (fun _ _ => rfl) fun l _ => lockstep_ite ?_ (hrest _)
  exact lockstep_bind (inStep_modifyFile _) fun _ => hrest _

theorem inStep_poll (hc : TimeScale.Closed finite) (feed : Feed) (id : Nat) :
    InStep finite (Station.poll setup listen feed id) := by
  have hrest : InStep finite (do
      if ((← get).host.watches[id]?).any (·.active) then Station.armPoll setup feed id :
        Act τ Unit) :=
    inStep_get (fun _ _ => rfl) fun _ _ =>
      lockstep_ite (inStep_armPoll hc feed id) (lockstep_pure _)
  refine inStep_get (fun _ _ => rfl) fun l _ => ?_
  split
  · exact lockstep_pure _
  · refine lockstep_ite ?_ (lockstep_pure _)
    refine lockstep_bind (inStep_ask h feed) fun seen => lockstep_ite ?_ hrest
    exact lockstep_bind (inStep_modifyWatch _ _) fun _ =>
      lockstep_bind (inStep_tell h feed seen) fun _ => hrest

end Watching

theorem inStep_remember (ids : List Nat) : InStep finite (remember ids : Act τ Unit) := by
  rw [remember]
  exact inStep_modifyHost fun _ _ => rfl

theorem inStep_readCounters (setup : Setup τ) : InStep finite (readCounters setup) :=
  inStep_get (fun _ _ => rfl) fun _ _ => lockstep_pure _

section Real

variable {setup : Setup τ} (hc : TimeScale.Closed finite) (hs : setup.reaches = fun _ => true)

include hc hs

theorem inStep_perform (r : Request τ) : InStep finite (perform setup r) := by
  cases r with
  | send c =>
    refine inStep_get (fun _ _ => rfl) fun l _ => ?_
    generalize l.host.owner.screen.take c = taken
    refine lockstep_bind (inStep_modifyHost fun _ _ => rfl) fun _ => ?_
    cases taken.2 with
    | none => exact lockstep_pure _
    | some f => exact lockstep_throw _
  | arm kind delay =>
    refine inStep_get (fun _ _ => rfl) fun l hl => ?_
    rw [hs]
    exact inStep_onTimers fun _ _ h => h.arm hc.toOrders kind (hc.due l.seconds delay hl)
  | disarm kind =>
    rw [perform, hs]
    exact inStep_onTimers fun _ _ h => h.disarm kind
  | note n => exact inStep_report _

theorem inStep_react (f : Indicator τ → Reaction τ) : InStep finite (react setup f) := by
  refine inStep_get (fun _ _ => rfl) fun l _ => ?_
  refine lockstep_bind (lockstep_forM _ fun s => ?_) fun _ => ?_
  · exact lockstep_bind (inStep_modifyHost fun _ _ => rfl) fun _ => inStep_perform hc hs _
  · refine lockstep_bind (inStep_modifyHost fun _ _ => rfl) fun _ => ?_
    cases (f l.host.owner.indicator).fault with
    | none => exact lockstep_pure _
    | some fault => exact lockstep_throw _

theorem inStep_listen (d : Delivery) : InStep finite (listen setup d) := inStep_react hc hs _

theorem inStep_tick : InStep finite (tick setup) := by
  refine inStep_get (fun _ _ => rfl) fun l _ => lockstep_ite ?_ (lockstep_pure _)
  exact lockstep_bind (inStep_readCounters setup) fun _ => inStep_react hc hs _

theorem inStep_openSettings (feed : SettingsFeed) : InStep finite (openSettings setup feed) := by
  cases feed with
  | fixed entries =>
    exact lockstep_bind (lockstep_forM _ fun _ => inStep_listen hc hs _) fun _ => lockstep_pure _
  | file =>
    exact lockstep_bind (inStep_watch (inStep_listen hc hs) hc _) fun _ => lockstep_pure _

theorem inStep_openState (feed : Feed) (deliver : Bool → Delivery) (state : StateFeed) :
    InStep finite (openState setup feed deliver state) := by
  cases state with
  | fixed b => exact lockstep_bind (inStep_listen hc hs _) fun _ => lockstep_pure _
  | polled =>
    exact lockstep_bind (inStep_watch (inStep_listen hc hs) hc _) fun _ => lockstep_pure _

theorem inStep_openCollaborators : InStep finite (openCollaborators setup) := by
  rw [openCollaborators_eq]
  refine lockstep_bind (lockstep_mapM _ (inStep_openSettings hc hs)) fun ids => ?_
  refine lockstep_bind (inStep_remember _) fun _ => ?_
  refine lockstep_bind (lockstep_elim fun feed => ?_) fun _ => ?_
  · exact lockstep_bind (inStep_openState hc hs _ _ feed) fun ids => inStep_remember ids
  refine lockstep_bind (lockstep_elim fun _ => inStep_listen hc hs _) fun _ => ?_
  refine lockstep_elim fun feed => ?_
  exact lockstep_bind (inStep_openState hc hs _ _ feed) fun ids => inStep_remember ids

theorem inStep_attach : InStep finite (attach setup) := by
  refine inStep_get (fun _ _ => rfl) fun l _ => lockstep_ite ?_ (lockstep_pure _)
  refine lockstep_bind (inStep_react hc hs _) fun _ => ?_
  refine lockstep_bind (inStep_openCollaborators hc hs) fun _ => ?_
  -- whether a tick is armed is read off the slots, which mesh
  rintro _ _ ⟨l, h, hl⟩
  have harmed := h.isArmed .tick
  rw [bind_get, bind_get]
  dsimp only [withGear]
  rw [harmed]
  exact inStep_react hc hs _ _ _ (.of l h hl)

theorem inStep_detach : InStep finite (detach setup) := by
  rw [detach, hs]
  refine lockstep_bind (inStep_onTimers fun _ _ h => h.disarmAll) fun _ => ?_
  refine inStep_get (fun _ _ => rfl) fun l _ => ?_
  refine lockstep_bind (lockstep_forM _ fun _ => lockstep_forM _ inStep_unwatch) fun _ => ?_
  exact lockstep_bind (inStep_modifyHost fun _ _ => rfl) fun _ => inStep_react hc hs _

theorem inStep_operation (op : Operation) : InStep finite (op.act setup) := by
  cases op with
  | attach => exact inStep_attach hc hs
  | detach => exact inStep_detach hc hs
  | tick => exact inStep_tick hc hs
  | deliver d => exact inStep_listen hc hs d

theorem alike_fire {l : Running τ} {g g' : Gear τ} (h : g.Meshes finite g')
    (hl : finite l.seconds) {now : τ} (hn : finite now) {e : Entry τ Job} {q : Queue τ Job}
    (ht : g.queue.takeDue now = (some e, q)) :
    ∃ f r, g'.queue.takeDue now = (some f, r) ∧
      Alike (Twins finite) (fire setup e (withGear l { g with queue := q }))
        (fire setup f (withGear l { g' with queue := r })) := by
  obtain ⟨f, r, hr, hwork, hrest⟩ := Queue.works_take hc.toOrders h.left.geared.sound
    h.right.geared.sound h.right.sorted h.works hn ht
  refine ⟨f, r, hr, ?_⟩
  have hjob : f.job = e.job := congrArg Prod.snd hwork
  rw [fire, Station.fire, Station.fire, hjob]
  cases hj : e.job with
  | own kind =>
    have hm : Gear.Meshes finite { g with timers := g.timers.release kind e.token, queue := q }
        { g' with timers := g'.timers.release kind f.token, queue := r } :=
      ⟨h.left.takeOwn ht hj, h.right.takeOwn hr (hjob.trans hj), hrest⟩
    refine alike_bind (Alike.ok () (.of l hm hl)) fun _ => ?_
    cases kind with
    | tick => exact inStep_tick hc hs
    | refresh => exact inStep_react hc hs _
  | poll feed id =>
    have hm : Gear.Meshes finite { g with slots := g.slots.release feed e.token, queue := q }
        { g' with slots := g'.slots.release feed f.token, queue := r } :=
      ⟨h.left.takePoll ht hj, h.right.takePoll hr (hjob.trans hj), hrest⟩
    refine alike_bind (Alike.ok () (.of l hm hl)) fun _ => ?_
    exact inStep_poll (inStep_listen hc hs) hc feed id

theorem abreast : Abreast (Twins finite) finite (fire setup) where
  clock := by
    rintro _ _ ⟨l, h, hl⟩
    rfl
  moves := by
    rintro _ _ t ⟨l, h, hl⟩
    exact .of { l with seconds := TimeScale.later l.seconds t } h (hc.later hl t)
  settles := by
    rintro _ _ ⟨l, h, hl⟩
    refine ⟨.of l h.settle hl, ?_, fun d hd => ?_⟩
    · refine (Queue.deadline?_settle h.left.geared.sound).trans ?_
      rw [h.works]
      exact (Queue.deadline?_settle h.right.geared.sound).symm
    · obtain ⟨e, he, rfl⟩ := Option.map_eq_some_iff.mp hd
      exact h.left.settle.sorted.finite e (List.mem_of_mem_head? he)
  fires := by
    rintro _ _ now e q ⟨l, h, hl⟩ hn ht
    exact alike_fire hc hs h hl hn ht
  idles := by
    rintro _ _ now q ⟨l, h, hl⟩ hn ht
    obtain ⟨r, hr, hrest⟩ := Queue.works_idle hc.toOrders h.left.geared.sound
      h.right.geared.sound h.left.sorted h.works hn ht
    exact ⟨r, hr, .of l ⟨h.left.idle ht, h.right.idle hr, hrest⟩ hl⟩

end Real

end Panel

end TrafficIndicator
