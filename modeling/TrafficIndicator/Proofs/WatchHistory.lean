import TrafficIndicator.Proofs.PanelOperations
import TrafficIndicator.Proofs.SlotHistory
import TrafficIndicator.Proofs.WatchLedger

/-!
The watches of one feed share a timer, and of the settings file also the listener. So a feed
serves the watch that began last, and only until any watch of that feed is ended. A history
lists the calls of a run, the latest first.
-/
namespace TrafficIndicator.Ledger

open Loop Station

variable {τ : Type}

inductive Call where
  | begun (feed : Feed) (id : Nat)
  | ended (feed : Feed) (id : Nat)
  deriving DecidableEq

namespace Call

def feed : Call → Feed
  | begun f _ => f
  | ended f _ => f

def id : Call → Nat
  | begun _ i => i
  | ended _ i => i

def leaves : Call → Option Nat
  | begun _ i => some i
  | ended _ _ => none

end Call

/-- The watch that a feed serves, as the last call on it left it. -/
def serving (feed : Feed) : List Call → Option Nat
  | [] => none
  | c :: earlier => if feed = c.feed then c.leaves else serving feed earlier

/-- A watch was ended, or another one of its feed began after it. -/
def Closed (id : Nat) : List Call → Prop
  | [] => False
  | .begun f _ :: earlier => .begun f id ∈ earlier ∨ Closed id earlier
  | .ended _ other :: earlier => other = id ∨ Closed id earlier

def heard (id : Nat) (o : Ledger) : List Delivery :=
  (o.told.filter fun p => p.1 = id).map Prod.snd

variable {feed : Feed} {id : Nat} {calls more : List Call}

theorem serving_append (h : ∀ c ∈ more, c.feed ≠ feed) :
    serving feed (more ++ calls) = serving feed calls := by
  induction more with
  | nil => rfl
  | cons c more ih =>
    rw [List.cons_append, serving, if_neg (h c List.mem_cons_self).symm]
    exact ih fun d hd => h d (List.mem_cons_of_mem _ hd)

theorem Closed.mem (h : Closed id calls) : ∃ c ∈ calls, c.id = id := by
  induction calls with
  | nil => cases h
  | cons c earlier ih =>
    have hearlier : (∃ c ∈ earlier, c.id = id) → ∃ d ∈ c :: earlier, d.id = id :=
      fun ⟨d, hd, hid⟩ => ⟨d, List.mem_cons_of_mem _ hd, hid⟩
    cases c with
    | begun f other =>
      rcases h with h | h
      · exact hearlier ⟨_, h, rfl⟩
      · exact hearlier (ih h)
    | ended f other =>
      rcases h with rfl | h
      · exact ⟨_, List.mem_cons_self, rfl⟩
      · exact hearlier (ih h)

theorem Closed.append (h : Closed id calls) : Closed id (more ++ calls) := by
  induction more with
  | nil => exact h
  | cons c more ih =>
    cases c with
    | begun f other => exact Or.inr ih
    | ended f other => exact Or.inr ih

def pollFeed : Job → Option Feed
  | .own _ => none
  | .poll feed _ => some feed

def awaited (feed : Feed) (q : Queue τ Job) : List (Entry τ Job) :=
  q.live.filter fun e => pollFeed e.job = some feed

structure Timed (served : Feed → Option Nat) (s : Slots Feed) (q : Queue τ Job) : Prop where
  sound : q.Sound
  backed : Slots.Backed pollFeed s q
  polls : ∀ feed id, (∃ e ∈ q.live, e.job = .poll feed id) ↔ served feed = some id

variable {served served' : Feed → Option Nat} {s : Slots Feed} {q r : Queue τ Job}

theorem timed_empty : Timed (τ := τ) (fun _ => none) {} {} := by
  refine ⟨Queue.sound_empty, Slots.backed_empty, fun feed id => ?_⟩
  simp [Queue.live]

theorem Timed.of_live (h : Timed served s q) (hr : r.Sound) (hl : r.live = q.live) :
    Timed served s r := by
  refine ⟨hr, h.backed.of_live hl, fun feed id => ?_⟩
  rw [hl]
  exact h.polls feed id

theorem Timed.disarm (h : Timed served s q) (feed : Feed)
    (hs : ∀ f, served' f = if f = feed then none else served f) :
    Timed served' (s.disarm (fun _ => true) feed q).1 (s.disarm (fun _ => true) feed q).2 := by
  refine ⟨Slots.sound_disarm h.sound _ feed, Slots.backed_disarm h.sound h.backed feed,
    fun f id => ?_⟩
  simp only [Slots.mem_live_disarm_iff h.sound h.backed]
  rw [hs]
  split
  · rename_i hf
    subst hf
    refine ⟨?_, nofun⟩
    rintro ⟨e, ⟨-, hne⟩, hj⟩
    rw [hj] at hne
    exact absurd rfl hne
  · rename_i hf
    rw [← h.polls]
    refine ⟨fun ⟨e, ⟨he, _⟩, hj⟩ => ⟨e, he, hj⟩, fun ⟨e, he, hj⟩ => ⟨e, ⟨he, ?_⟩, hj⟩⟩
    rw [hj]
    exact fun hsame => hf (Option.some.inj hsame)

theorem Timed.alone (h : Timed served s q) {feed : Feed} {id : Nat} (hs : served feed = some id) :
    ∃ e, awaited feed q = [e] ∧ e.job = .poll feed id := by
  obtain ⟨e, he, hj⟩ := (h.polls feed id).mpr hs
  have hk : pollFeed e.job = some feed := by rw [hj]; rfl
  have htokens := h.backed.live_of_kind h.sound feed
  rw [h.backed.held e he feed hk] at htokens
  obtain ⟨d, hd, hsame⟩ := List.map_eq_singleton_iff.mp htokens
  have hlive : d ∈ q.live := (List.mem_filter.mp (hd ▸ List.mem_singleton_self d)).1
  rw [Queue.live_unique h.sound hlive he hsame] at hd
  exact ⟨e, hd, hj⟩

variable [TimeScale τ]

theorem Timed.arm (h : Timed served s q) {feed : Feed} {id : Nat} (deadline : τ)
    (hs : ∀ f, served' f = if f = feed then some id else served f) :
    Timed served' (s.arm (fun _ => true) feed deadline (.poll feed id) q).1
      (s.arm (fun _ => true) feed deadline (.poll feed id) q).2 := by
  have hd : Timed (fun f => if f = feed then none else served f)
      (s.disarm (fun _ => true) feed q).1 (s.disarm (fun _ => true) feed q).2 :=
    h.disarm feed fun _ => rfl
  refine ⟨Slots.sound_arm h.sound _ feed deadline _, Slots.backed_arm h.sound h.backed rfl deadline,
    fun f i => ?_⟩
  simp only [Slots.mem_live_arm h.sound, or_and_right, exists_or, exists_eq_left, hd.polls]
  rw [hs]
  by_cases hf : f = feed
  · subst hf
    simp
  · simp [hf, Ne.symm hf]

theorem Timed.fire (h : Timed served s q) {now : τ} {e : Entry τ Job}
    (ht : q.takeDue now = (some e, r))
    (hs : ∀ f, served' f = if pollFeed e.job = some f then none else served f) :
    Timed served' (s.afterFiring pollFeed e) r := by
  obtain ⟨hr, hl, -, -⟩ := Queue.takeDue_some h.sound ht
  have hb := h.backed.fire h.sound hl
  have hheld : ∀ f, pollFeed e.job = some f → s.token? f = some e.token := fun f hf =>
    h.backed.held e (by rw [hl]; exact List.mem_cons_self) f hf
  refine ⟨hr, hb, fun f id => ?_⟩
  rw [hs]
  split
  · -- the timer of the feed is the one that was taken
    rename_i hf
    refine ⟨?_, nofun⟩
    rintro ⟨d, hd, hj⟩
    have hd' := hb.held d hd f (by rw [hj]; rfl)
    rw [Slots.afterFiring, hf] at hd'
    dsimp only at hd'
    rw [Slots.token?_release, if_pos ⟨rfl, hheld f hf⟩] at hd'
    cases hd'
  · rename_i hf
    rw [← h.polls, hl]
    constructor
    · rintro ⟨d, hd, hj⟩
      exact ⟨d, List.mem_cons_of_mem _ hd, hj⟩
    · rintro ⟨d, hd, hj⟩
      rcases List.mem_cons.mp hd with rfl | hd
      · rw [hj] at hf
        exact absurd rfl hf
      · exact ⟨d, hd, hj⟩

theorem Timed.serves (h : Timed served s q) {now : τ} {e : Entry τ Job}
    (ht : q.takeDue now = (some e, r)) {feed : Feed} {id : Nat} (hj : e.job = .poll feed id) :
    served feed = some id := by
  obtain ⟨-, hl, -, -⟩ := Queue.takeDue_some h.sound ht
  refine (h.polls feed id).mp ⟨e, ?_, hj⟩
  rw [hl]
  exact List.mem_cons_self

/-- The watches that are served are active, calls are about watches of their feed, and no watch
that is closed is served. -/
structure Filed (calls : List Call) (ws : List Watch) : Prop where
  active : ∀ feed id, serving feed calls = some id →
    ∃ w, ws[id]? = some w ∧ w.feed = feed ∧ w.active = true
  known : ∀ c ∈ calls, ∃ w, ws[c.id]? = some w ∧ w.feed = c.feed
  closed : ∀ feed id, Closed id calls → serving feed calls ≠ some id

def Carried (ws ws' : List Watch) : Prop :=
  ∀ (i : Nat) (w : Watch), ws[i]? = some w →
    ∃ w', ws'[i]? = some w' ∧ w'.feed = w.feed ∧ w'.active = w.active

section Filing

omit [TimeScale τ]

variable {ws ws' : List Watch}

theorem getElem?_modify_watch {i : Nat} {w : Watch} (hw : ws[i]? = some w) (id : Nat)
    (g : Watch → Watch) : (ws.modify id g)[i]? = some (if id = i then g w else w) := by
  rw [List.getElem?_modify, hw]
  split <;> rfl

/-- Remembering what was seen changes neither the feed of a watch nor whether it is active. -/
theorem carried_seen (id : Nat) (seen : Sighting) :
    Carried ws (ws.modify id fun w => { w with last := some seen }) := by
  intro i w hw
  refine ⟨_, getElem?_modify_watch hw id _, ?_⟩
  split
  · exact ⟨rfl, rfl⟩
  · exact ⟨rfl, rfl⟩

theorem Filed.carried (h : Filed calls ws) (hc : Carried ws ws') : Filed calls ws' where
  active feed id hid := by
    obtain ⟨w, hw, hfeed, hactive⟩ := h.active feed id hid
    obtain ⟨w', hw', hfeed', hactive'⟩ := hc id w hw
    exact ⟨w', hw', hfeed'.trans hfeed, hactive'.trans hactive⟩
  known c hmem := by
    obtain ⟨w, hw, hfeed⟩ := h.known c hmem
    obtain ⟨w', hw', hfeed', -⟩ := hc c.id w hw
    exact ⟨w', hw', hfeed'.trans hfeed⟩
  closed := h.closed

theorem Filed.feed_unique (h : Filed calls ws) {c : Call} (hc : c ∈ calls)
    (hs : serving feed calls = some c.id) : feed = c.feed := by
  obtain ⟨w, hw, hfeed⟩ := h.known c hc
  obtain ⟨w', hw', hfeed', -⟩ := h.active feed c.id hs
  rw [← hfeed, ← hfeed', Option.some.inj (hw'.symm.trans hw)]

theorem Filed.begun (h : Filed calls ws) (feed : Feed) :
    Filed (.begun feed ws.length :: calls) (ws ++ [{ feed := feed }]) := by
  have hold : Carried ws (ws ++ [{ feed := feed }]) := by
    intro i w hw
    have hlt := (List.getElem?_eq_some_iff.mp hw).1
    exact ⟨w, (List.getElem?_append_left hlt).trans hw, rfl, rfl⟩
  have hfresh : ∀ c ∈ calls, c.id ≠ ws.length := by
    intro c hc hid
    obtain ⟨w, hw, -⟩ := h.known c hc
    have hlt := (List.getElem?_eq_some_iff.mp hw).1
    rw [hid] at hlt
    exact Nat.lt_irrefl _ hlt
  have hfiled := h.carried hold
  refine ⟨fun f i hi => ?_, fun c hc => ?_, fun f i hi hserving => ?_⟩
  · rw [serving] at hi
    split at hi
    · rename_i hf
      subst hf
      cases hi
      exact ⟨_, List.getElem?_concat_length, rfl, rfl⟩
    · exact hfiled.active f i hi
  · rcases List.mem_cons.mp hc with rfl | hc
    · exact ⟨_, List.getElem?_concat_length, rfl⟩
    · exact hfiled.known c hc
  · rw [serving] at hserving
    split at hserving
    · cases hserving
      rcases hi with hi | hi
      · exact hfresh _ hi rfl
      · obtain ⟨c, hc, hid⟩ := hi.mem
        exact hfresh c hc hid
    · rename_i hf
      rcases hi with hi | hi
      · have hsame : f = feed := h.feed_unique hi hserving
        exact hf hsame
      · exact h.closed f i hi hserving

theorem Filed.ended (h : Filed calls ws) {id : Nat} {w : Watch} (hw : ws[id]? = some w) :
    Filed (.ended w.feed id :: calls) (ws.modify id fun w => { w with active := false }) := by
  have hfeeds : ∀ (i : Nat) (v : Watch), ws[i]? = some v → ∃ v',
      (ws.modify id fun w => { w with active := false })[i]? = some v' ∧ v'.feed = v.feed := by
    intro i v hv
    refine ⟨_, getElem?_modify_watch hv id _, ?_⟩
    split
    · rfl
    · rfl
  refine ⟨fun f i hi => ?_, fun c hc => ?_, fun f i hi hserving => ?_⟩
  · rw [serving] at hi
    split at hi
    · cases hi
    · rename_i hf
      obtain ⟨v, hv, hfeed, hactive⟩ := h.active f i hi
      refine ⟨v, ?_, hfeed, hactive⟩
      rw [getElem?_modify_watch hv, if_neg]
      rintro rfl
      rw [Option.some.inj (hw.symm.trans hv)] at hf
      exact hf hfeed.symm
  · rcases List.mem_cons.mp hc with rfl | hc
    · exact hfeeds id w hw
    · obtain ⟨v, hv, hfeed⟩ := h.known c hc
      obtain ⟨v', hv', hfeed'⟩ := hfeeds c.id v hv
      exact ⟨v', hv', hfeed'.trans hfeed⟩
  · rw [serving] at hserving
    split at hserving
    · cases hserving
    · rename_i hf
      rcases hi with rfl | hi
      · obtain ⟨v, hv, hfeed, -⟩ := h.active f _ hserving
        rw [Option.some.inj (hw.symm.trans hv)] at hf
        exact hf hfeed.symm
      · exact h.closed f i hi hserving

end Filing

variable {setup : Setup τ} {start l l' m : Desk τ}

/-- One thing that happens, and the calls that it adds. A watch begins, one that has begun is
ended, perhaps again, or the loop takes what is due; none of them halts. Anything may change
that is no matter of the watches. -/
inductive Step (setup : Setup τ) : Desk τ → List Call → Desk τ → Prop where
  | begun {l l' : Desk τ} {feed : Feed} {id : Nat} (h : watch setup feed l = .ok id l') :
      Step setup l [.begun feed id] l'
  | ended {l l' : Desk τ} {id : Nat} {w : Watch} (hw : l.host.watches[id]? = some w)
      (h : unwatch id l = .ok () l') : Step setup l [.ended w.feed id] l'
  | fired {l l' : Desk τ} {now : τ} {e : Entry τ Job} {q : Queue τ Job}
      (ht : l.queue.takeDue now = (some e, q))
      (h : fire setup e { l with queue := q } = .ok () l') : Step setup l [] l'
  | idled {l : Desk τ} {now : τ} {q : Queue τ Job} (ht : l.queue.takeDue now = (none, q)) :
      Step setup l [] { l with queue := q }
  | settled {l : Desk τ} : Step setup l [] { l with queue := l.queue.settle }
  | around {l l' : Desk τ} (hq : l'.queue = l.queue) (hs : l'.host.slots = l.host.slots)
      (hw : l'.host.watches = l.host.watches) (hf : l'.host.file = l.host.file)
      (ho : l'.host.owner = l.host.owner) : Step setup l [] l'

/-- What happens one after another, with the calls, the latest first. -/
inductive Steps (setup : Setup τ) (start : Desk τ) : List Call → Desk τ → Prop where
  | refl : Steps setup start [] start
  | tail {calls new : List Call} {l l' : Desk τ} (h : Steps setup start calls l)
      (hs : Step setup l new l') : Steps setup start (new ++ calls) l'

theorem Steps.trans (h : Steps setup start calls l) (h' : Steps setup l more l') :
    Steps setup start (more ++ calls) l' := by
  induction h' with
  | refl => exact h
  | tail _ hs ih =>
    rw [List.append_assoc]
    exact ih.tail hs

structure Unwatched (l : Desk τ) : Prop where
  queue : l.queue = {}
  slots : l.host.slots = {}
  watches : l.host.watches = []

/-- What the calls leave: the watches that are served are active and alone have polls waiting,
none of them is closed, and the settings file is read for the one that it serves. -/
structure Kept (calls : List Call) (l : Desk τ) : Prop where
  timed : Timed (fun f => serving f calls) l.host.slots l.queue
  filed : Filed calls l.host.watches
  reader : ∀ id, serving .settingsFile calls = some id →
    l.host.owner.reader = some id ∧ ∃ history, Follows history l

omit [TimeScale τ] in
theorem kept_unwatched (h : Unwatched l) : Kept [] l := by
  refine ⟨?_, ⟨nofun, fun c hc => (List.not_mem_nil hc).elim, fun _ _ h => h.elim⟩, nofun⟩
  rw [h.queue, h.slots]
  exact timed_empty

omit [TimeScale τ] in
theorem Kept.of_same (h : Kept calls l)
    (ht : Timed (fun f => serving f calls) l'.host.slots l'.queue)
    (hw : l'.host.watches = l.host.watches) (hf : l'.host.file = l.host.file)
    (ho : l'.host.owner = l.host.owner) : Kept calls l' := by
  refine ⟨ht, hw ▸ h.filed, fun id hid => ?_⟩
  obtain ⟨hreader, history, hfollows⟩ := h.reader id hid
  exact ⟨ho ▸ hreader, history, hfollows.of_file hf⟩

/-- Once a watch is served, its poll is the only one of its feed that waits. -/
theorem Served.timed {last : Option Sighting} (h : Served setup id feed last l l')
    (ht : Timed served l.host.slots l.queue)
    (hs : ∀ f, served' f = if f = feed then some id else served f) :
    Timed served' l'.host.slots l'.queue := by
  obtain ⟨hslots, hqueue⟩ := Prod.ext_iff.mp h.timers
  dsimp only at hslots hqueue
  rw [hslots, hqueue]
  exact ht.arm _ hs

/-- The next poll of a watch that was served is due when the interval of its feed is over. -/
theorem Served.next {last : Option Sighting} (h : Served setup id feed last l l')
    (ht : Timed served l.host.slots l.queue) :
    ∃ e, awaited feed l'.queue = [e] ∧ e.job = .poll feed id ∧
      e.deadline = l'.deadline (setup.interval feed) := by
  have hserved : Timed (fun f => if f = feed then some id else served f) l'.host.slots l'.queue :=
    h.timed ht fun _ => rfl
  obtain ⟨e, he, hj⟩ := hserved.alone (if_pos rfl)
  have hqueue : l'.queue = (armed feed id (l'.deadline (setup.interval feed)) l).2 :=
    congrArg Prod.snd h.timers
  have hnew : (⟨l'.deadline (setup.interval feed), l.queue.nextToken, .poll feed id⟩ :
      Entry τ Job) ∈ awaited feed l'.queue := by
    refine List.mem_filter.mpr ⟨?_, decide_eq_true rfl⟩
    rw [hqueue]
    exact (Slots.mem_live_arm ht.sound).mpr (Or.inl rfl)
  rw [he] at hnew
  refine ⟨e, he, hj, ?_⟩
  rw [← List.mem_singleton.mp hnew]

theorem Served.filed {last : Option Sighting} (h : Served setup id feed last l l')
    (hf : Filed calls l.host.watches) : Filed calls l'.host.watches := by
  obtain ⟨seen, hwatches, -⟩ := h.watches
  rw [hwatches]
  exact hf.carried (carried_seen id seen)

theorem Kept.begun (hk : Kept calls l) (h : watch setup feed l = .ok id l') :
    Kept (.begun feed id :: calls) l' := by
  obtain ⟨hid, hs⟩ := watch_served h
  subst hid
  refine ⟨hs.timed hk.timed fun f => rfl, hs.filed (hk.filed.begun feed), fun i hi => ?_⟩
  rw [serving] at hi
  split at hi
  · rename_i hf
    replace hf : feed = .settingsFile := hf.symm
    subst hf
    cases hi
    exact ⟨hs.reader, hs.follows rfl⟩
  · rename_i hf
    replace hf : feed ≠ .settingsFile := Ne.symm hf
    obtain ⟨hreader, history, hfollows⟩ := hk.reader i hi
    refine ⟨hs.reader.trans ?_, history, hfollows.of_file ((hs.memory hf).trans (if_neg hf))⟩
    exact (if_neg hf).trans hreader

omit [TimeScale τ] in
theorem Kept.ended (hk : Kept calls l) {w : Watch} (hw : l.host.watches[id]? = some w)
    (h : unwatch id l = .ok () l') : Kept (.ended w.feed id :: calls) l' := by
  rw [unwatch_eq hw] at h
  cases h
  refine ⟨hk.timed.disarm w.feed fun f => rfl, hk.filed.ended hw, fun i hi => ?_⟩
  rw [serving] at hi
  split at hi
  · cases hi
  · rename_i hf
    replace hf : w.feed ≠ .settingsFile := Ne.symm hf
    obtain ⟨hreader, history, hfollows⟩ := hk.reader i hi
    exact ⟨hreader, history, hfollows.of_file (if_neg hf)⟩

omit [TimeScale τ] in
theorem Kept.hearer (hk : Kept calls l) (hs : serving feed calls = some id) :
    l.host.owner.hearer id feed = id := by
  cases feed with
  | interfaces | session => rfl
  | settingsFile =>
    rw [Ledger.hearer, (hk.reader id hs).1]
    rfl

omit [TimeScale τ] in
theorem Kept.follows (hk : Kept calls l) (hs : serving feed calls = some id)
    (hf : feed = .settingsFile) : ∃ history, Follows history l := by
  subst hf
  exact (hk.reader id hs).2

def released (feed : Feed) (e : Entry τ Job) (q : Queue τ Job) (l : Desk τ) : Desk τ :=
  { l with queue := q, host := { l.host with slots := l.host.slots.release feed e.token } }

variable {now : τ} {e : Entry τ Job} {q : Queue τ Job}

theorem Kept.serves (hk : Kept calls l) (ht : l.queue.takeDue now = (some e, q))
    (hj : e.job = .poll feed id) : serving feed calls = some id :=
  hk.timed.serves ht hj

theorem Kept.taken (hk : Kept calls l) (ht : l.queue.takeDue now = (some e, q))
    (hj : e.job = .poll feed id) :
    Timed (fun f => if f = feed then none else serving f calls)
      (released feed e q l).host.slots (released feed e q l).queue := by
  have hkind : pollFeed e.job = some feed := by rw [hj]; rfl
  have htimed : Timed (fun f => if f = feed then none else serving f calls)
      (l.host.slots.afterFiring pollFeed e) q := by
    refine hk.timed.fire ht fun f => ?_
    rw [hkind]
    by_cases hf : f = feed
    · subst hf
      rw [if_pos rfl, if_pos rfl]
    · rw [if_neg hf, if_neg fun h => hf (Option.some.inj h).symm]
  rw [Slots.afterFiring, hkind] at htimed
  exact htimed

/-- A poll that fires is that of the watch which its feed serves, and serves it. -/
theorem Kept.polled (hk : Kept calls l) (ht : l.queue.takeDue now = (some e, q))
    (hj : e.job = .poll feed id) (h : fire setup e { l with queue := q } = .ok () l') :
    ∃ w, l.host.watches[id]? = some w ∧ Served setup id feed w.last (released feed e q l) l' := by
  have hs := hk.serves ht hj
  obtain ⟨w, hw, -, hactive⟩ := hk.filed.active feed id hs
  rw [fire_poll hj] at h
  have hhearer : l.host.owner.hearer id feed = id := hk.hearer hs
  dsimp only at h
  rw [hhearer] at h
  exact ⟨w, hw, poll_served (fun hf => (hk.follows hs hf).imp fun _ hh => hh.of_file rfl) hw
    hactive h⟩

theorem Kept.fired (hk : Kept calls l) (ht : l.queue.takeDue now = (some e, q))
    (h : fire setup e { l with queue := q } = .ok () l') : Kept calls l' := by
  cases hj : e.job with
  | own kind =>
    rw [fire, hj] at h
    cases h
    have hkind : pollFeed e.job = none := by rw [hj]; rfl
    have htimed : Timed (fun f => serving f calls) (l.host.slots.afterFiring pollFeed e) q := by
      refine hk.timed.fire ht fun f => ?_
      rw [hkind, if_neg (Option.some_ne_none f).symm]
    rw [Slots.afterFiring, hkind] at htimed
    exact hk.of_same htimed rfl rfl rfl
  | poll feed id =>
    have hs := hk.serves ht hj
    obtain ⟨w, -, hserved⟩ := hk.polled ht hj h
    refine ⟨hserved.timed (hk.taken ht hj) fun f => ?_, hserved.filed hk.filed,
      fun i hi => ?_⟩
    · by_cases hf : f = feed
      · subst hf
        rw [if_pos rfl, hs]
      · rw [if_neg hf, if_neg hf]
    · obtain ⟨hreader, history, hfollows⟩ := hk.reader i hi
      refine ⟨hserved.reader.trans hreader, ?_⟩
      by_cases hf : feed = .settingsFile
      · exact hserved.follows hf
      · exact ⟨history, hfollows.of_file (hserved.memory hf)⟩

theorem Kept.step {new : List Call} (hk : Kept calls l) (h : Step setup l new l') :
    Kept (new ++ calls) l' := by
  cases h with
  | begun h => exact hk.begun h
  | ended hw h => exact hk.ended hw h
  | fired ht h => exact hk.fired ht h
  | idled ht =>
    obtain ⟨hq, hlive⟩ := Queue.takeDue_none hk.timed.sound ht
    exact hk.of_same (hk.timed.of_live hq hlive) rfl rfl rfl
  | settled =>
    have hsound := hk.timed.sound
    exact hk.of_same (hk.timed.of_live (Queue.sound_settle hsound) (Queue.live_settle hsound))
      rfl rfl rfl
  | around hq hs hw hf ho =>
    refine hk.of_same ?_ hw hf ho
    rw [hq, hs]
    exact hk.timed

theorem Kept.steps (hk : Kept calls l) (h : Steps setup l more l') : Kept (more ++ calls) l' := by
  induction h with
  | refl => exact hk
  | tail _ hs ih =>
    rw [List.append_assoc]
    exact ih.step hs

theorem Served.heard_other {last : Option Sighting} {other : Nat}
    (h : Served setup other feed last m l') (hne : other ≠ id)
    (hm : m.host.owner.told = l.host.owner.told) :
    heard id l'.host.owner = heard id l.host.owner := by
  have hnone : ((news setup m.host last feed).map (Prod.mk other)).filter
      (fun p => decide (p.1 = id)) = [] := by
    rw [List.filter_eq_nil_iff]
    intro p hp
    obtain ⟨d, -, rfl⟩ := List.mem_map.mp hp
    simpa using hne
  rw [heard, h.told, List.filter_append, hnone, List.append_nil, hm]
  rfl

theorem Kept.heard_step {new : List Call} (hk : Kept calls l) (hc : Closed id calls)
    (h : Step setup l new l') : heard id l'.host.owner = heard id l.host.owner := by
  cases h with
  | begun h =>
    obtain ⟨rfl, hs⟩ := watch_served h
    refine hs.heard_other ?_ rfl
    obtain ⟨c, hmem, rfl⟩ := hc.mem
    obtain ⟨w, hw, -⟩ := hk.filed.known c hmem
    exact (Nat.ne_of_lt (List.getElem?_eq_some_iff.mp hw).1).symm
  | ended hw h =>
    rw [unwatch_eq hw] at h
    cases h
    rfl
  | @fired _ now e q ht h =>
    cases hj : e.job with
    | own kind =>
      rw [fire, hj] at h
      cases h
      rfl
    | poll feed other =>
      obtain ⟨w, -, hs⟩ := hk.polled ht hj h
      refine hs.heard_other ?_ rfl
      rintro rfl
      exact hk.filed.closed feed other hc (hk.serves ht hj)
  | idled => rfl
  | settled => rfl
  | around _ _ _ _ ho => rw [ho]

theorem Kept.heard_steps (hk : Kept calls l) (hc : Closed id calls)
    (h : Steps setup l more l') : heard id l'.host.owner = heard id l.host.owner := by
  induction h with
  | refl => rfl
  | @tail newer new m l' h hs ih => exact ((hk.steps h).heard_step hc.append hs).trans ih

theorem turns_steps (setup : Setup τ) (start : Desk τ) (calls : List Call) :
    Turns (Steps setup start calls) (fun _ _ => True) (fire setup) where
  fires l now e q h ht := by
    cases hf : fire setup e { l with queue := q } with
    | ok u m => exact h.tail (.fired ht hf)
    | error f m => trivial
  idles _ _ _ h ht := h.tail (.idled ht)
  tires _ _ := trivial

theorem Steps.advance (h : Steps setup start calls l) {turns : Nat} {ms : τ} {u : Unit}
    (ha : Loop.advance (fire setup) turns ms l = .ok u l') : Steps setup start calls l' := by
  have hclock : ∀ (l : Desk τ) t, Step setup l [] { l with seconds := t } :=
    fun _ _ => .around rfl rfl rfl rfl rfl
  exact (ends_advance (turns_steps setup start calls) (fun _ h => h.tail .settled)
    (fun l t h => h.tail (hclock l t)) turns ms).keeps l u l' ha h

/-- The watch that began last on a feed is served until a watch of that feed is ended: one poll
of the feed waits, and it is its own. If the feed can be read the poll comes to its end. The
next one then waits for the interval of the feed, and what changed is told to this watch alone,
and not again. Calls on other feeds leave it served. A watch that was ended, or that another one
of its feed took over from, hears nothing any more. -/
theorem served_until_called (hu : Unwatched start) (h : Steps setup start calls l) :
    (∀ feed id, serving feed calls = some id →
      (∃ e, awaited feed l.queue = [e] ∧ e.job = .poll feed id) ∧
      ∃ w, l.host.watches[id]? = some w ∧ w.feed = feed ∧ w.active = true ∧
        ∀ now e q, l.queue.takeDue now = (some e, q) → e.job = .poll feed id →
          (Answers setup l.host.world feed →
            ∃ l', fire setup e { l with queue := q } = .ok () l') ∧
          ∀ l', fire setup e { l with queue := q } = .ok () l' →
            Steps setup start calls l' ∧
            l'.host.owner.told =
              l.host.owner.told ++ (news setup l.host w.last feed).map (Prod.mk id) ∧
            (∃ w', l'.host.watches[id]? = some w' ∧ news setup l'.host w'.last feed = []) ∧
            ∃ next, awaited feed l'.queue = [next] ∧ next.job = .poll feed id ∧
              next.deadline = l'.deadline (setup.interval feed)) ∧
      (∀ feed id more l', serving feed calls = some id → Steps setup l more l' →
        (∀ c ∈ more, c.feed ≠ feed) →
          Steps setup start (more ++ calls) l' ∧ serving feed (more ++ calls) = some id) ∧
      (∀ id more l', Closed id calls → Steps setup l more l' →
        heard id l'.host.owner = heard id l.host.owner) ∧
      ∀ ms l', Loop.advance (fire setup) turnLimit ms l = .ok () l' →
        Steps setup start calls l' := by
  have hk : Kept calls l := by
    have hsteps := (kept_unwatched hu).steps h
    rwa [List.append_nil] at hsteps
  refine ⟨fun feed id hs => ⟨hk.timed.alone hs, ?_⟩, ?_, ?_, fun ms l' ha => h.advance ha⟩
  · obtain ⟨w, hw, hfeed, hactive⟩ := hk.filed.active feed id hs
    refine ⟨w, hw, hfeed, hactive, fun now e q ht hj => ⟨fun ha => ?_, fun l' hf => ?_⟩⟩
    · rw [fire_poll hj]
      dsimp only
      rw [hk.hearer hs]
      exact poll_total (fun hf => (hk.follows hs hf).imp fun _ hh => hh.of_file rfl) hw hactive ha
    · obtain ⟨w', hw', hserved⟩ := hk.polled ht hj hf
      rw [hw] at hw'
      cases hw'
      obtain ⟨seen, hwatches, hnone⟩ := hserved.watches
      have hseen : l'.host.watches[id]? = some { w with last := some seen } := by
        rw [hwatches]
        exact (getElem?_modify_watch hw id _).trans (by rw [if_pos rfl])
      exact ⟨h.tail (.fired ht hf), hserved.told, ⟨_, hseen, hnone⟩,
        hserved.next (hk.taken ht hj)⟩
  · intro feed id more l' hs hmore hothers
    exact ⟨h.trans hmore, (serving_append hothers).trans hs⟩
  · intro id more l' hc hmore
    exact hk.heard_steps hc hmore

def wired (state : String) : World where
  found := [("/sys/class/net",
    .directory [("eth0", .directory [("operstate", .file state.toUTF8 0)] 0)] 0)]

def polling : Setup Rat where
  interval := fun _ => 1000

def idleDesk : Desk Rat where
  seconds := 0
  host := { world := wired "down", owner := {} }

def watchedTwice : Desk Rat :=
  (Session.runThrough (watch polling .interfaces)
    (Session.runThrough (watch polling .interfaces) idleDesk).1).1

theorem watchedTwice_steps :
    Steps polling idleDesk [.begun .interfaces 1, .begun .interfaces 0] watchedTwice := by
  have once : (Session.runThrough (watch polling .interfaces) idleDesk).2 = none := by
    decide +kernel
  have twice : (Session.runThrough (watch polling .interfaces)
      (Session.runThrough (watch polling .interfaces) idleDesk).1).2 = none := by
    decide +kernel
  obtain ⟨first, hfirst⟩ := Session.runThrough_ok once
  obtain ⟨second, hsecond⟩ := Session.runThrough_ok twice
  obtain ⟨rfl, -⟩ := watch_served hfirst
  obtain ⟨rfl, -⟩ := watch_served hsecond
  exact (Steps.refl.tail (.begun hfirst)).tail (.begun hsecond)

/-- When the interface comes up, the watch that began last hears of it and the other does
not. -/
theorem second_watch_hears :
    ∃ (l l' : Desk Rat) (calls : List Call), Steps polling idleDesk calls l ∧
      Closed 0 calls ∧ Steps polling l [] l' ∧
      l'.host.owner.told = l.host.owner.told ++ [(1, .connection true)] ∧
      heard 0 l'.host.owner = heard 0 l.host.owner := by
  let l : Desk Rat := { watchedTwice with
    seconds := 1
    host := { watchedTwice.host with world := wired "up" } }
  have hworld : Step polling watchedTwice [] l := .around rfl rfl rfl rfl rfl
  have h : Steps polling idleDesk [.begun .interfaces 1, .begun .interfaces 0] l :=
    watchedTwice_steps.tail hworld
  obtain ⟨hserved, -, hclosed, -⟩ := served_until_called ⟨rfl, rfl, rfl⟩ h
  obtain ⟨-, w, hw, -, -, hpolls⟩ := hserved .interfaces 1 rfl
  have hdue : (l.queue.takeDue 1000).1.map Entry.job = some (.poll .interfaces 1) := by
    decide +kernel
  obtain ⟨e, he, hj⟩ := Option.map_eq_some_iff.mp hdue
  have ht : l.queue.takeDue 1000 = (some e, (l.queue.takeDue 1000).2) := by rw [← he]
  obtain ⟨hfires, htells⟩ := hpolls 1000 e _ ht hj
  have hup : (l.host.world.connected polling.interfacesPath : Observed Rat Bool).outcome =
      .ok true := by decide +kernel
  obtain ⟨l', hf⟩ := hfires ⟨true, hup⟩
  obtain ⟨-, htold, -⟩ := htells l' hf
  have hlast : w.last = some (.flag false) := by
    have hseen : (l.host.watches[1]?).map (·.last) = some (some (.flag false)) := by
      decide +kernel
    rw [hw] at hseen
    exact Option.some.inj hseen
  have hnews : news polling l.host w.last .interfaces = [.connection true] := by
    rw [news, hup, hlast]
    rfl
  have hstep : Steps polling l [] l' := Steps.refl.tail (.fired ht hf)
  have hover : Closed 0 [.begun .interfaces 1, .begun .interfaces 0] :=
    Or.inl List.mem_cons_self
  rw [hnews] at htold
  exact ⟨l, l', _, h, hover, hstep, htold, hclosed 0 [] l' hover hstep⟩

/-- The first of two watches of one feed polls no more, though it was never ended. -/
theorem displaced_watch_polls_no_more :
    ¬∀ (setup : Setup Rat) (start l : Desk Rat) (calls : List Call), Unwatched start →
      Steps setup start calls l → ∀ feed id, .begun feed id ∈ calls → .ended feed id ∉ calls →
        ∃ e ∈ l.queue.live, e.job = .poll feed id := by
  intro h
  have hu : Unwatched idleDesk := ⟨rfl, rfl, rfl⟩
  obtain ⟨e, he, hj⟩ := h polling idleDesk watchedTwice _ hu watchedTwice_steps .interfaces 0
    (by decide) (by decide)
  have hjobs : watchedTwice.queue.live.map Entry.job = [.poll .interfaces 1] := by decide +kernel
  have hmem := List.mem_map_of_mem (f := Entry.job) he
  rw [hjobs, hj] at hmem
  exact absurd hmem (by decide)

end TrafficIndicator.Ledger
