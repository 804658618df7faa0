import TrafficIndicator.Proofs.SettingsWatch
import TrafficIndicator.Proofs.StationOwner
import TrafficIndicator.Proofs.TimerSlots

/-!
Every watch has a listener of its own here, and what each is told is written down with the
number of its watch. The settings file knows only one listener, that of the watch which began
last. What a watch, its end and a poll do to the timers, to the watches and to what was told is
exact.
-/
namespace TrafficIndicator

/-- What was told, each delivery with the watch whose listener heard it. -/
structure Ledger where
  told : List (Nat × Delivery) := []
  /-- The watch whose listener hears of the settings file. -/
  reader : Option Nat := none

namespace Ledger

open Loop Station

variable {τ : Type}

abbrev Desk (τ : Type) := Loop τ Job (Station τ Ledger)

abbrev Act (τ α : Type) := Station.Act τ Ledger α

def record (id : Nat) (d : Delivery) : Act τ Unit :=
  modifyHost fun s => { s with owner := { s.owner with told := s.owner.told ++ [(id, d)] } }

def hearer (o : Ledger) (id : Nat) : Feed → Nat
  | .settingsFile => o.reader.getD id
  | _ => id

variable [TimeScale τ]

def watch (setup : Setup τ) (feed : Feed) : Act τ Nat := do
  let id := (← get).host.watches.length
  if feed = .settingsFile then
    modifyHost fun s => { s with owner := { s.owner with reader := some id } }
  Station.watch setup (record id) feed

def fire (setup : Setup τ) (e : Entry τ Job) : Act τ Unit := do
  match e.job with
  | .own _ => pure ()
  | .poll feed id =>
    let o := (← get).host.owner
    Station.fire setup (record (o.hearer id feed)) (fun _ _ => pure ()) e

def unread (setup : Setup τ) (s : Station τ Ledger) : Entries :=
  let k := Look.ofWorld setup s.world
  if k.stamp.isSome && k.stamp ≠ s.file.stamp then
    (k.entries.map (changedEntries setup.defaults s.file.entries)).getD []
  else []

def turned (state : Except Fault Bool) (last : Option Sighting) : List Bool :=
  match state with
  | .ok b => if some (.flag b) ≠ last then [b] else []
  | .error _ => []

def news (setup : Setup τ) (s : Station τ Ledger) (last : Option Sighting) :
    Feed → List Delivery
  | .interfaces =>
    (turned (s.world.connected setup.interfacesPath : Observed τ Bool).outcome last).map
      .connection
  | .session => (turned (s.world.locked setup.session : Observed τ Bool).outcome last).map .lock
  | .settingsFile => (unread setup s).map fun e => .setting e.1 e.2

section Asking

omit [TimeScale τ]

variable {setup : Setup τ} {feed : Feed} {id : Nat} {seen : Sighting} {l l' m : Desk τ}

structure Beside (l m : Desk τ) : Prop where
  queue : m.queue = l.queue
  slots : m.host.slots = l.host.slots
  watches : m.host.watches = l.host.watches
  world : m.host.world = l.host.world
  reader : m.host.owner.reader = l.host.owner.reader

theorem Beside.refl (l : Desk τ) : Beside l l := ⟨rfl, rfl, rfl, rfl, rfl⟩

theorem ofReading_beside (l : Desk τ) : OfReading (Beside l) (fun _ _ => True) where
  file _ _ _ h := ⟨h.queue, h.slots, h.watches, h.world, h.reader⟩
  notices _ _ h := ⟨h.queue, h.slots, h.watches, h.world, h.reader⟩
  asked _ _ h := ⟨h.queue, h.slots, h.watches, h.world, h.reader⟩
  halts _ _ _ := trivial

theorem ask_beside (h : ask setup (record id) feed l = .ok seen m) : Beside l m := by
  have hrecord : ∀ d, Ends (Beside l) (fun _ _ => True) (record id d) := fun d =>
    ends_modifyHost fun _ h => ⟨h.queue, h.slots, h.watches, h.world, h.reader⟩
  exact (ends_ask (ofReading_beside l) (fun _ _ => hrecord _) feed).keeps l seen m h (Beside.refl l)

theorem heeds_record (id : Nat) :
    Heeds (record id : Listener τ Ledger) told fun told e =>
      told ++ [(id, .setting e.1 e.2)] where
  notes l key v l' h := by
    cases h
    exact ⟨rfl, rfl, rfl⟩
  ends l key v := ⟨_, rfl⟩

def tellings : Feed → Sighting → List Delivery
  | .interfaces, .flag b => [.connection b]
  | .session, .flag b => [.lock b]
  | _, _ => []

theorem tell_record (id : Nat) (feed : Feed) (seen : Sighting) (l : Desk τ) :
    tell (record id) feed seen l = .ok () { l with host := { l.host with
      owner := { l.host.owner with
        told := l.host.owner.told ++ (tellings feed seen).map (Prod.mk id) } } } := by
  cases feed <;> cases seen <;> simp [Station.tell, tellings, record] <;> rfl

/-- What asking comes to: with what the sighting has to tell beside the one seen last, the news
are told, and there are none for the one seen now. -/
structure Asked (setup : Setup τ) (id : Nat) (feed : Feed) (seen : Sighting) (l m : Desk τ) :
    Prop where
  beside : Beside l m
  told : ∀ last, m.host.owner.told ++
      (if some seen ≠ last then tellings feed seen else []).map (Prod.mk id) =
    l.host.owner.told ++ (news setup l.host last feed).map (Prod.mk id)
  none : news setup m.host (some seen) feed = []
  memory : feed ≠ .settingsFile → m.host.file = l.host.file
  follows : feed = .settingsFile → ∃ history, Follows history m

theorem asked_of_state {state : Except Fault Bool} {deliver : Bool → Delivery} {b : Bool}
    (hfeed : feed ≠ .settingsFile)
    (hnews : ∀ s last, s.world = l.host.world →
      news setup s last feed = (turned state last).map deliver)
    (htell : tellings feed (.flag b) = [deliver b]) (hstate : state = .ok b)
    (hbeside : Beside l m) (htold : m.host.owner.told = l.host.owner.told)
    (hfile : m.host.file = l.host.file) : Asked setup id feed (.flag b) l m := by
  refine ⟨hbeside, fun last => ?_, ?_, fun _ => hfile, fun h => absurd h hfeed⟩
  · rw [hnews _ _ rfl, htold, htell, hstate, turned]
    split <;> rfl
  · rw [hnews _ _ hbeside.world, hstate, turned]
    simp

theorem asked_interfaces (h : ask setup (record id) .interfaces l = .ok seen m) :
    Asked setup id .interfaces seen l m := by
  have hbeside := ask_beside h
  obtain ⟨b, k, hobs, h⟩ := bind_ok.mp (get_bind_ok.mp h)
  obtain ⟨ho, rfl⟩ := observe_ok.mp hobs
  obtain ⟨rfl, rfl⟩ := pure_ok.mp h
  refine asked_of_state (by decide) (fun s last hs => ?_) rfl ho hbeside rfl rfl
  rw [news, hs]

theorem asked_session (h : ask setup (record id) .session l = .ok seen m) :
    Asked setup id .session seen l m := by
  have hbeside := ask_beside h
  -- whether or not a session is asked for, the same is observed
  have hasked : ∃ b, (l.host.world.locked setup.session : Observed τ Bool).outcome = .ok b ∧
      seen = .flag b ∧ m.host.owner = l.host.owner ∧ m.host.file = l.host.file := by
    rw [ask] at h
    split at h
    · obtain ⟨_, k, hk, h⟩ := bind_ok.mp h
      have hk' := modify_ok.mp hk
      subst hk'
      obtain ⟨b, _, hobs, h⟩ := bind_ok.mp (get_bind_ok.mp h)
      obtain ⟨ho, rfl⟩ := observe_ok.mp hobs
      obtain ⟨rfl, rfl⟩ := pure_ok.mp h
      exact ⟨b, ho, rfl, rfl, rfl⟩
    · obtain ⟨b, _, hobs, h⟩ := bind_ok.mp (get_bind_ok.mp h)
      obtain ⟨ho, rfl⟩ := observe_ok.mp hobs
      obtain ⟨rfl, rfl⟩ := pure_ok.mp h
      exact ⟨b, ho, rfl, rfl, rfl⟩
  obtain ⟨b, ho, rfl, howner, hfile⟩ := hasked
  refine asked_of_state (by decide) (fun s last hs => ?_) rfl ho hbeside (congrArg told howner)
    hfile
  rw [news, hs]

theorem unread_of_follows {history : List Look} (h : Follows history l) :
    unread setup l.host = (Look.ofWorld setup l.host.world).told setup.defaults
      history := by
  rw [unread, Look.told, Look.object, Look.isNew, h.stamp, h.entries]
  split
  · cases (Look.ofWorld setup l.host.world).entries <;> rfl
  · rfl

theorem unread_of_met {history : List Look}
    (h : Follows (Look.ofWorld setup l.host.world :: history) l) :
    unread setup l.host = [] := by
  rw [unread, h.stamp, Look.lastStamp]
  split
  · rename_i hnew
    simp only [Bool.and_eq_true, decide_eq_true_eq] at hnew
    obtain ⟨hsome, hne⟩ := hnew
    obtain ⟨stamp, hstamp⟩ := Option.isSome_iff_exists.mp hsome
    rw [hstamp] at hne
    exact absurd rfl hne
  · rfl

theorem foldl_settings (id : Nat) (entries : Entries) (told : List (Nat × Delivery)) :
    entries.foldl (fun told e => told ++ [(id, .setting e.1 e.2)]) told =
      told ++ (entries.map fun e => Delivery.setting e.1 e.2).map (Prod.mk id) := by
  rw [List.map_map]
  induction entries generalizing told with
  | nil => exact (List.append_nil _).symm
  | cons e entries ih =>
    rw [List.foldl_cons, ih, List.append_assoc]
    rfl

theorem asked_settings {history : List Look} (hf : Follows history l)
    (h : ask setup (record id) .settingsFile l = .ok seen m) :
    Asked setup id .settingsFile seen l m := by
  have hbeside := ask_beside h
  obtain ⟨s, k, hlook, h⟩ := bind_ok.mp h
  obtain ⟨rfl, rfl⟩ := pure_ok.mp h
  have hlooked := look_ok (heeds_record id).notes hf hlook
  have hmet : Follows (Look.ofWorld setup m.host.world :: history) m := by
    rw [hbeside.world]
    exact hlooked.follows
  refine ⟨hbeside, fun last => ?_, ?_, fun hfeed => absurd rfl hfeed, fun _ => ⟨_, hmet⟩⟩
  · rw [hlooked.heard, foldl_settings, news, unread_of_follows hf]
    split <;> exact List.append_nil _
  · rw [news, unread_of_met hmet]
    rfl

/-- The settings file is only asked where its memory follows what was met. -/
theorem asked (hf : feed = .settingsFile → ∃ history, Follows history l)
    (h : ask setup (record id) feed l = .ok seen m) : Asked setup id feed seen l m := by
  cases feed with
  | interfaces => exact asked_interfaces h
  | session => exact asked_session h
  | settingsFile =>
    obtain ⟨history, hf⟩ := hf rfl
    exact asked_settings hf h

end Asking

variable {setup : Setup τ} {feed : Feed} {id : Nat} {seen : Sighting} {l l' m : Desk τ}

/-- The slots and the queue once the next poll of a watch is armed. -/
def armed (feed : Feed) (id : Nat) (deadline : τ) (l : Desk τ) : Slots Feed × Queue τ Job :=
  l.host.slots.arm (fun _ => true) feed deadline (.poll feed id) l.queue

def rearmed (feed : Feed) (id : Nat) (deadline : τ) (l : Desk τ) : Desk τ :=
  { l with
    queue := (armed feed id deadline l).2
    host := { l.host with slots := (armed feed id deadline l).1 } }

omit [TimeScale τ] in
def marked (feed : Feed) (id : Nat) (seen : Sighting) (last : Option Sighting) (l : Desk τ) :
    Desk τ :=
  { l with host := { l.host with
    watches := l.host.watches.modify id fun w => { w with last := some seen }
    owner := { l.host.owner with told := l.host.owner.told ++
      (if some seen ≠ last then tellings feed seen else []).map (Prod.mk id) } } }

omit [TimeScale τ] in
theorem marked_same {w : Watch} (hw : l.host.watches[id]? = some w) (hlast : some seen = w.last) :
    marked feed id seen w.last l = l := by
  have hwatches : (l.host.watches.modify id fun w => { w with last := some seen }) =
      l.host.watches := by
    apply List.ext_getElem?
    intro i
    rw [List.getElem?_modify]
    by_cases hi : id = i
    · subst hi
      rw [hw, hlast]
      simp
    · simp [hi]
  have htold : l.host.owner.told ++
      (if some seen ≠ w.last then tellings feed seen else []).map (Prod.mk id) =
        l.host.owner.told := by
    rw [if_neg (not_not.mpr hlast)]
    exact List.append_nil _
  rw [marked, hwatches, htold]

/-- What asking a feed for a watch, telling its news and arming its next poll come to. -/
structure Served (setup : Setup τ) (id : Nat) (feed : Feed) (last : Option Sighting)
    (l l' : Desk τ) : Prop where
  told : l'.host.owner.told = l.host.owner.told ++ (news setup l.host last feed).map (Prod.mk id)
  timers : (l'.host.slots, l'.queue) = armed feed id (l'.deadline (setup.interval feed)) l
  watches : ∃ seen,
    l'.host.watches = (l.host.watches.modify id fun w => { w with last := some seen }) ∧
      news setup l'.host (some seen) feed = []
  world : l'.host.world = l.host.world
  reader : l'.host.owner.reader = l.host.owner.reader
  memory : feed ≠ .settingsFile → l'.host.file = l.host.file
  follows : feed = .settingsFile → ∃ history, Follows history l'

omit [TimeScale τ] in
theorem news_congr {s s' : Station τ Ledger} (hw : s'.world = s.world) (hf : s'.file = s.file)
    (last : Option Sighting) (feed : Feed) : news setup s' last feed = news setup s last feed := by
  cases feed with
  | interfaces | session => rw [news, news, hw]
  | settingsFile => rw [news, news, unread, unread, hw, hf]

theorem Asked.served (h : Asked setup id feed seen l m) (last : Option Sighting) :
    Served setup id feed last l
      (rearmed feed id (m.deadline (setup.interval feed)) (marked feed id seen last m)) := by
  refine ⟨h.told last, ?_, ⟨seen, ?_, ?_⟩, h.beside.world, h.beside.reader, h.memory,
    fun hf => ?_⟩
  · rw [armed, ← h.beside.slots, ← h.beside.queue]
    rfl
  · rw [← h.beside.watches]
    rfl
  · rw [← h.none]
    exact news_congr rfl rfl _ _
  · obtain ⟨history, hfollows⟩ := h.follows hf
    exact ⟨history, hfollows.of_file rfl⟩

theorem poll_eq {w : Watch} (hw : l.host.watches[id]? = some w) (ha : w.active = true)
    (hask : ask setup (record id) feed l = .ok seen m) :
    poll setup (record id) feed id l = .ok () (rearmed feed id (m.deadline (setup.interval feed))
      (marked feed id seen w.last m)) := by
  have hmw : m.host.watches[id]? = some w := by rw [(ask_beside hask).watches, hw]
  have hactive : ((marked feed id seen w.last m).host.watches[id]?).any (·.active) = true := by
    change ((m.host.watches.modify id _)[id]?).any _ = true
    rw [List.getElem?_modify_eq, hmw]
    exact ha
  have hrest : (do
      if ((← get).host.watches[id]?).any (·.active) then armPoll setup feed id : Act τ Unit)
        (marked feed id seen w.last m) = .ok () (rearmed feed id (m.deadline (setup.interval feed))
          (marked feed id seen w.last m)) := by
    rw [bind_get, hactive, if_pos rfl]
    rfl
  rw [poll, bind_get, hw]
  dsimp only
  rw [if_pos ha, bind_of_ok hask]
  split
  · rename_i hnew
    rw [marked, if_pos hnew] at hrest
    rw [marked, if_pos hnew, ← hrest]
    have hmark : (modifyWatch id fun w => { w with last := some seen } : Act τ Unit) m =
        .ok () { m with host := { m.host with
          watches := m.host.watches.modify id fun w => { w with last := some seen } } } := rfl
    rw [bind_of_ok hmark, bind_of_ok (tell_record id feed seen _)]
  · rename_i hsame
    rw [marked_same hmw (not_not.mp hsame)] at hrest ⊢
    exact hrest

theorem poll_served {w : Watch} (hf : feed = .settingsFile → ∃ history, Follows history l)
    (hw : l.host.watches[id]? = some w) (ha : w.active = true) {u : Unit}
    (h : poll setup (record id) feed id l = .ok u l') : Served setup id feed w.last l l' := by
  obtain ⟨seen, m, hask⟩ : ∃ seen m, ask setup (record id) feed l = .ok seen m := by
    rw [poll, get_bind_ok, hw] at h
    dsimp only at h
    rw [if_pos ha] at h
    obtain ⟨seen, m, hask, -⟩ := bind_ok.mp h
    exact ⟨seen, m, hask⟩
  rw [poll_eq hw ha hask] at h
  cases h
  exact (asked hf hask).served w.last

omit [TimeScale τ] in
def Answers (setup : Setup τ) (w : World) : Feed → Prop
  | .interfaces => ∃ b, (w.connected setup.interfacesPath : Observed τ Bool).outcome = .ok b
  | .session => ∃ b, (w.locked setup.session : Observed τ Bool).outcome = .ok b
  | .settingsFile => (∃ stamp, w.stamp? setup.settingsPath = .ok stamp) ∧
    ∃ found, (w.settings setup.settingsPath setup.nesting : Observed τ _).outcome = .ok found

omit [TimeScale τ] in
theorem ask_total (hf : feed = .settingsFile → ∃ history, Follows history l)
    (h : Answers setup l.host.world feed) :
    ∃ seen m, ask setup (record id) feed l = .ok seen m := by
  cases feed with
  | interfaces =>
    obtain ⟨b, ho⟩ := h
    exact ⟨_, _, get_bind_ok.mpr (bind_ok.mpr ⟨b, _, observe_ok.mpr ⟨ho, rfl⟩, rfl⟩)⟩
  | session =>
    obtain ⟨b, ho⟩ := h
    rw [ask]
    split
    · exact ⟨_, _, bind_ok.mpr ⟨_, _, rfl, get_bind_ok.mpr
        (bind_ok.mpr ⟨b, _, observe_ok.mpr ⟨ho, rfl⟩, rfl⟩)⟩⟩
    · exact ⟨_, _, get_bind_ok.mpr (bind_ok.mpr ⟨b, _, observe_ok.mpr ⟨ho, rfl⟩, rfl⟩)⟩
  | settingsFile =>
    obtain ⟨history, hfollows⟩ := hf rfl
    obtain ⟨s, m, hlook⟩ := look_ends (heeds_record id) hfollows ⟨h.1, fun _ => h.2⟩
    exact ⟨_, m, bind_ok.mpr ⟨s, m, hlook, rfl⟩⟩

theorem poll_total {w : Watch} (hf : feed = .settingsFile → ∃ history, Follows history l)
    (hw : l.host.watches[id]? = some w) (ha : w.active = true)
    (h : Answers setup l.host.world feed) :
    ∃ l', poll setup (record id) feed id l = .ok () l' := by
  obtain ⟨seen, m, hask⟩ := ask_total hf h
  exact ⟨_, poll_eq hw ha hask⟩

omit [TimeScale τ] in
def opened (feed : Feed) (l : Desk τ) : Desk τ :=
  { l with host := { l.host with
    watches := l.host.watches ++ [{ feed := feed }]
    file := if feed = .settingsFile then { listening := true } else l.host.file
    owner := { l.host.owner with reader :=
      if feed = .settingsFile then some l.host.watches.length else l.host.owner.reader } } }

theorem watch_served {u : Nat} (h : watch setup feed l = .ok u l') :
    u = l.host.watches.length ∧
      Served setup l.host.watches.length feed none (opened feed l) l' := by
  have hf : feed = .settingsFile → ∃ history, Follows history (opened feed l) := by
    rintro rfl
    exact ⟨[], rfl, rfl, rfl⟩
  -- what is done before the feed is asked
  have hopen : (do
      let seen ← ask setup (record l.host.watches.length) feed
      modifyWatch l.host.watches.length fun w => { w with last := some seen }
      tell (record l.host.watches.length) feed seen
      armPoll setup feed l.host.watches.length
      return l.host.watches.length : Act τ Nat) (opened feed l) = .ok u l' := by
    cases feed <;> exact h
  obtain ⟨seen, m, hask, h⟩ := bind_ok.mp hopen
  obtain ⟨_, k, hmark, h⟩ := bind_ok.mp h
  obtain ⟨_, k', htell, h⟩ := bind_ok.mp h
  obtain ⟨_, k'', harm, h⟩ := bind_ok.mp h
  obtain ⟨rfl, rfl⟩ := pure_ok.mp h
  have hmark' := modify_ok.mp hmark
  subst hmark'
  rw [tell_record] at htell
  cases htell
  cases harm
  exact ⟨rfl, (asked hf hask).served none⟩

omit [TimeScale τ] in
def stopped (feed : Feed) (id : Nat) (l : Desk τ) : Desk τ :=
  { l with
    queue := (l.host.slots.disarm (fun _ => true) feed l.queue).2
    host := { l.host with
      slots := (l.host.slots.disarm (fun _ => true) feed l.queue).1
      watches := l.host.watches.modify id fun w => { w with active := false }
      file := if feed = .settingsFile then { l.host.file with listening := false }
        else l.host.file } }

omit [TimeScale τ] in
theorem unwatch_eq {w : Watch} (hw : l.host.watches[id]? = some w) :
    unwatch id l = .ok () (stopped w.feed id l) := by
  rw [unwatch, bind_get, hw]
  cases w with
  | mk feed active last => cases feed <;> rfl

/-- A timer that fires leaves its slot, and the watch that it belongs to polls. -/
theorem fire_poll {e : Entry τ Job} (hj : e.job = .poll feed id) :
    fire setup e l = poll setup (record (l.host.owner.hearer id feed)) feed id
      { l with host := { l.host with slots := l.host.slots.release feed e.token } } := by
  rw [fire, hj]
  dsimp only
  rw [bind_get, Station.fire, hj]
  rfl

end Ledger

end TrafficIndicator
