import TrafficIndicator.Proofs.WatchHistory

/-!
A signal is a feed that says whether something holds: whether there is a connection, whether the
screen is locked. A poll reads one value of it and tells the listener if it is not the one that
was told last. The listener may end the watch while it is told, and then the poll arms no other.
-/
namespace TrafficIndicator.Station

open Loop
open Ledger (Timed awaited pollFeed getElem?_modify_watch)

inductive Signal where
  | connection
  | lock
  deriving DecidableEq

namespace Signal

def feed : Signal → Feed
  | connection => .interfaces
  | lock => .session

def delivery : Signal → Bool → Delivery
  | connection, b => .connection b
  | lock, b => .lock b

def value? : Signal → Delivery → Option Bool
  | connection, .connection b => some b
  | lock, .lock b => some b
  | _, _ => none

def state {τ : Type} (s : Signal) (setup : Setup τ) (w : World) : Except Fault Bool :=
  match s with
  | connection => (w.connected setup.interfacesPath : Observed τ Bool).outcome
  | lock => (w.locked setup.session : Observed τ Bool).outcome

theorem value?_delivery (s : Signal) (b : Bool) : s.value? (s.delivery b) = some b := by
  cases s <;> rfl

theorem feed_ne_settingsFile (s : Signal) : s.feed ≠ .settingsFile := by
  cases s <;> decide

end Signal

/-- Who watches a signal: the number of the watch, what was heard of the signal in order, and
what the listener needs to hold of the owner. -/
structure Subscriber (ρ : Type) where
  signal : Signal
  id : Nat
  heard : ρ → List Bool
  fit : ρ → Prop

namespace Subscriber

variable {τ ρ : Type}

abbrev feed (c : Subscriber ρ) : Feed := c.signal.feed

variable {c : Subscriber ρ} {setup : Setup τ} {listen : Listener τ ρ} {served : Feed → Option Nat}
  {w : Watch} {due : Option Nat} {l l' m : Loop τ Job (Station τ ρ)}

/-- Each feed has the poll of the watch waiting that it serves, and no other. -/
structure Tended (served : Feed → Option Nat) (l : Loop τ Job (Station τ ρ)) : Prop where
  timed : Timed served l.host.slots l.queue
  named : ∀ feed id, served feed = some id →
    ∃ w, l.host.watches[id]? = some w ∧ w.feed = feed

/-- Something that is no matter of a watch: it and the poll that its feed has waiting are left
as they are, and no watch changes its feed. -/
structure Spares (c : Subscriber ρ) (l l' : Loop τ Job (Station τ ρ)) : Prop where
  tended : ∀ served, Tended served l → ∃ served', Tended served' l' ∧
    served' c.feed = served c.feed
  watch : l'.host.watches[c.id]? = l.host.watches[c.id]?
  feeds : ∀ (i : Nat) (w : Watch), l.host.watches[i]? = some w →
    ∃ w', l'.host.watches[i]? = some w' ∧ w'.feed = w.feed

inductive Meanwhile (c : Subscriber ρ) (l : Loop τ Job (Station τ ρ)) :
    Loop τ Job (Station τ ρ) → Prop where
  | refl : Meanwhile c l l
  | spared {m l' : Loop τ Job (Station τ ρ)} (h : Meanwhile c l m) (hs : Spares c m l') :
    Meanwhile c l l'
  | ended {m l' : Loop τ Job (Station τ ρ)} (h : Meanwhile c l m)
    (hu : unwatch c.id m = .ok () l') : Meanwhile c l l'

structure Leads (c : Subscriber ρ) (told : List Bool) (l l' : Loop τ Job (Station τ ρ)) :
    Prop where
  meanwhile : Meanwhile c l l'
  fit : c.fit l.host.owner → c.fit l'.host.owner
  heard : c.heard l'.host.owner = c.heard l.host.owner ++ told

/-- A listener that comes to its end whatever it is told, and remembers what it is told of the
signal. It may end the watch, and do whatever is no matter of it. -/
def Heeds (c : Subscriber ρ) (listen : Listener τ ρ) : Prop :=
  ∀ d l, (∃ served, Tended served l) → c.fit l.host.owner →
    ∃ l', listen d l = .ok () l' ∧ c.Leads (c.signal.value? d).toList l l'

theorem Meanwhile.trans (h : Meanwhile c l m) (h' : Meanwhile c m l') : Meanwhile c l l' := by
  induction h' with
  | refl => exact h
  | spared _ hs ih => exact ih.spared hs
  | ended _ hu ih => exact ih.ended hu

theorem Leads.refl (l : Loop τ Job (Station τ ρ)) : c.Leads [] l l :=
  ⟨.refl, fun h => h, (List.append_nil _).symm⟩

theorem Leads.trans {told more : List Bool} (h : c.Leads told l m) (h' : c.Leads more m l') :
    c.Leads (told ++ more) l l' := by
  refine ⟨h.meanwhile.trans h'.meanwhile, fun hf => h'.fit (h.fit hf), ?_⟩
  rw [h'.heard, h.heard, List.append_assoc]

theorem Spares.leads (h : Spares c l l') (ho : l'.host.owner = l.host.owner) :
    c.Leads [] l l' := by
  refine ⟨.spared .refl h, ?_, ?_⟩
  · rw [ho]
    exact fun hf => hf
  · rw [ho, List.append_nil]

theorem spares_around (hq : l'.queue = l.queue) (hs : l'.host.slots = l.host.slots)
    (hw : l'.host.watches = l.host.watches) : Spares c l l' := by
  refine ⟨fun served h => ⟨served, ⟨?_, ?_⟩, rfl⟩, by rw [hw],
    fun i w hi => ⟨w, by rw [hw, hi], rfl⟩⟩
  · rw [hq, hs]
    exact h.timed
  · rw [hw]
    exact h.named

structure Stands (c : Subscriber ρ) (w : Watch) (due : Option Nat)
    (l : Loop τ Job (Station τ ρ)) : Prop where
  tended : ∃ served, Tended served l ∧ served c.feed = due
  watch : l.host.watches[c.id]? = some w
  feed : w.feed = c.feed

theorem Stands.kept (h : c.Stands w due l) : ∃ served, Tended served l := by
  obtain ⟨served, ht, -⟩ := h.tended
  exact ⟨served, ht⟩

theorem Stands.spared (h : c.Stands w due l) (hs : Spares c l l') : c.Stands w due l' := by
  obtain ⟨served, ht, hdue⟩ := h.tended
  obtain ⟨served', ht', hsame⟩ := hs.tended served ht
  exact ⟨⟨served', ht', hsame.trans hdue⟩, hs.watch.trans h.watch, h.feed⟩

theorem Stands.modified (h : c.Stands w due l) (f : Watch → Watch) (hf : ∀ w, (f w).feed = w.feed) :
    c.Stands (f w) due { l with host := { l.host with
      watches := l.host.watches.modify c.id f } } := by
  obtain ⟨served, ht, hdue⟩ := h.tended
  refine ⟨⟨served, ⟨ht.timed, fun feed id hid => ?_⟩, hdue⟩, ?_, (hf w).trans h.feed⟩
  · obtain ⟨v, hv, hfeed⟩ := ht.named feed id hid
    refine ⟨_, getElem?_modify_watch hv c.id f, ?_⟩
    split
    · exact (hf v).trans hfeed
    · exact hfeed
  · exact (getElem?_modify_watch h.watch c.id f).trans (by rw [if_pos rfl])

theorem Stands.disarmed (h : c.Stands w due l) :
    c.Stands w none (withSlots l (l.host.slots.disarm (fun _ => true) c.feed l.queue)) := by
  obtain ⟨served, ht, -⟩ := h.tended
  refine ⟨⟨fun f => if f = c.feed then none else served f, ⟨ht.timed.disarm c.feed fun _ => rfl,
    fun feed id hid => ?_⟩, if_pos rfl⟩, h.watch, h.feed⟩
  split at hid
  · cases hid
  · exact ht.named feed id hid

theorem Stands.ended (h : c.Stands w due l) (hu : unwatch c.id l = .ok () l') :
    c.Stands { w with active := false } none l' := by
  have hmodified := h.modified (fun w => { w with active := false }) fun _ => rfl
  rw [unwatch, get_bind_ok, h.watch] at hu
  dsimp only at hu
  rw [h.feed, if_neg c.signal.feed_ne_settingsFile] at hu
  cases hu
  exact hmodified.disarmed

theorem Stands.meanwhile (h : c.Stands w due l) (hm : Meanwhile c l l') :
    c.Stands w due l' ∨ c.Stands { w with active := false } none l' := by
  induction hm with
  | refl => exact .inl h
  | spared _ hs ih =>
    rcases ih with ih | ih
    · exact .inl (ih.spared hs)
    · exact .inr (ih.spared hs)
  | ended _ hu ih =>
    rcases ih with ih | ih
    · exact .inr (ih.ended hu)
    · exact .inr (ih.ended hu)

theorem Stands.awaited (h : c.Stands w due l) :
    match due with
    | none => Ledger.awaited c.feed l.queue = []
    | some id => ∃ e, Ledger.awaited c.feed l.queue = [e] ∧ e.job = .poll c.feed id := by
  obtain ⟨served, ht, hdue⟩ := h.tended
  cases due with
  | none =>
    refine List.filter_eq_nil_iff.mpr fun e he hk => ?_
    have hkind := of_decide_eq_true hk
    cases hj : e.job with
    | own kind =>
      rw [hj] at hkind
      cases hkind
    | poll feed id =>
      rw [hj] at hkind
      cases hkind
      have hserved := (ht.timed.polls c.feed id).mp ⟨e, he, hj⟩
      rw [hdue] at hserved
      cases hserved
  | some id => exact ht.timed.alone hdue

structure Unread (l m : Loop τ Job (Station τ ρ)) : Prop where
  queue : m.queue = l.queue
  slots : m.host.slots = l.host.slots
  watches : m.host.watches = l.host.watches
  owner : m.host.owner = l.host.owner

theorem observe_flag {o : Observed τ Bool} {b : Bool} (h : o.outcome = .ok b) :
    ∃ m, (do return Sighting.flag (← observe o) : Act τ ρ Sighting) l = .ok (.flag b) m ∧
      Unread l m := by
  refine ⟨_, bind_ok.mpr ⟨b, _, observe_ok.mpr ⟨h, rfl⟩, rfl⟩, rfl, rfl, rfl, rfl⟩

theorem ask_ok (listen : Listener τ ρ) {b : Bool} (h : c.signal.state setup l.host.world = .ok b) :
    ∃ m, ask setup listen c.feed l = .ok (.flag b) m ∧ Unread l m := by
  rw [feed]
  cases hs : c.signal with
  | connection =>
    rw [hs] at h
    exact observe_flag h
  | lock =>
    rw [hs] at h
    rw [Signal.feed, ask]
    split
    · -- the session that is asked for is written down first
      obtain ⟨m, hm, hunread⟩ := observe_flag (l := { l with host := { l.host with
        asked := l.host.asked ++ [setup.session] } }) h
      exact ⟨m, hm, hunread.queue, hunread.slots, hunread.watches, hunread.owner⟩
    · exact observe_flag h

theorem of_ask {seen : Sighting} (h : ask setup listen c.feed l = .ok seen m) :
    ∃ b, c.signal.state setup l.host.world = .ok b := by
  rw [feed] at h
  cases hs : c.signal with
  | connection =>
    rw [hs] at h
    obtain ⟨b, _, hobs, -⟩ := bind_ok.mp (get_bind_ok.mp h)
    exact ⟨b, (observe_ok.mp hobs).1⟩
  | lock =>
    rw [hs, Signal.feed, ask] at h
    split at h
    · obtain ⟨_, k, hk, h⟩ := bind_ok.mp h
      obtain rfl := modify_ok.mp hk
      obtain ⟨b, _, hobs, -⟩ := bind_ok.mp (get_bind_ok.mp h)
      exact ⟨b, (observe_ok.mp hobs).1⟩
    · obtain ⟨b, _, hobs, -⟩ := bind_ok.mp (get_bind_ok.mp h)
      exact ⟨b, (observe_ok.mp hobs).1⟩

theorem Unread.spares (h : Unread l m) : Spares c l m :=
  spares_around h.queue h.slots h.watches

theorem tell_flag (b : Bool) : tell listen c.feed (.flag b) = listen (c.signal.delivery b) := by
  rw [feed]
  cases c.signal <;> rfl

section Polling

variable [TimeScale τ]

theorem Tended.armed (h : Tended served l) {feed : Feed} {id : Nat}
    (hid : ∃ w, l.host.watches[id]? = some w ∧ w.feed = feed) (deadline : τ) :
    Tended (fun f => if f = feed then some id else served f)
      (withSlots l (l.host.slots.arm (fun _ => true) feed deadline (.poll feed id) l.queue)) := by
  refine ⟨h.timed.arm deadline fun _ => rfl, fun f i hi => ?_⟩
  split at hi
  · rename_i hf
    cases hi
    rw [hf]
    exact hid
  · exact h.named f i hi

theorem Stands.armed (h : c.Stands w due l) (setup : Setup τ) :
    ∃ l', armPoll setup c.feed c.id l = .ok () l' ∧ c.Stands w (some c.id) l' ∧
      l'.host.owner = l.host.owner := by
  obtain ⟨served, ht, -⟩ := h.tended
  have harmed := ht.armed ⟨w, h.watch, h.feed⟩ (l.deadline (setup.interval c.feed))
  exact ⟨_, rfl, ⟨⟨_, harmed, if_pos rfl⟩, h.watch, h.feed⟩, rfl⟩

theorem Stands.rearmed (h : c.Stands w none l) (setup : Setup τ) :
    ∃ l', (do
        if ((← get).host.watches[c.id]?).any (·.active) then armPoll setup c.feed c.id :
          Act τ ρ Unit) l = .ok () l' ∧
      c.Stands w (if w.active then some c.id else none) l' ∧ l'.host.owner = l.host.owner := by
  rw [bind_get, h.watch, Option.any_some]
  cases w.active with
  | true => exact h.armed setup
  | false => exact ⟨l, rfl, h, rfl⟩

omit [TimeScale τ] in
/-- The listener is told a value while no poll waits. It leaves the watch, or ends it. -/
theorem Stands.told {b : Bool} (h : c.Stands w none l) (hl : c.Heeds listen)
    (hf : c.fit l.host.owner) :
    ∃ l' active, tell listen c.feed (.flag b) l = .ok () l' ∧ c.fit l'.host.owner ∧
      c.heard l'.host.owner = c.heard l.host.owner ++ [b] ∧
      c.Stands { w with active := active } none l' := by
  obtain ⟨l', hl', hleads⟩ := hl (c.signal.delivery b) l h.kept hf
  rw [c.signal.value?_delivery] at hleads
  rw [tell_flag]
  rcases h.meanwhile hleads.meanwhile with hstands | hstands
  · exact ⟨l', w.active, hl', hleads.fit hf, hleads.heard, hstands⟩
  · exact ⟨l', false, hl', hleads.fit hf, hleads.heard, hstands⟩

/-- A watch that has seen a value, with its next poll waiting unless it was ended. -/
def Saw (c : Subscriber ρ) (b active : Bool) (l : Loop τ Job (Station τ ρ)) : Prop :=
  c.Stands ⟨c.feed, active, some (.flag b)⟩ (if active then some c.id else none) l

/-- A poll of an active watch reads the signal and tells the value if it is not the one that was
seen last. -/
theorem Stands.polled {b : Bool} (h : c.Stands w none l) (ha : w.active = true)
    (hl : c.Heeds listen) (hf : c.fit l.host.owner)
    (hb : c.signal.state setup l.host.world = .ok b) :
    ∃ l' active, poll setup listen c.feed c.id l = .ok () l' ∧ c.fit l'.host.owner ∧
      c.heard l'.host.owner =
        c.heard l.host.owner ++ (if some (.flag b) ≠ w.last then [b] else []) ∧
      c.Saw b active l' := by
  obtain ⟨wfeed, wactive, last⟩ := w
  obtain rfl : wfeed = c.feed := h.feed
  obtain rfl : wactive = true := ha
  obtain ⟨m, hask, hunread⟩ := ask_ok listen hb
  have hm : c.Stands ⟨c.feed, true, last⟩ none m := h.spared hunread.spares
  have hfm : c.fit m.host.owner := hunread.owner ▸ hf
  rw [poll, bind_get, h.watch]
  dsimp only
  rw [if_pos rfl, bind_of_ok hask, ← hunread.owner]
  by_cases hnew : some (.flag b) ≠ last
  · have hseen := hm.modified (fun w => { w with last := some (.flag b) }) fun _ => rfl
    obtain ⟨k, active, htell, hfk, hheard, hk⟩ := hseen.told (b := b) hl hfm
    obtain ⟨l', hrest, hstands, howner⟩ := hk.rearmed setup
    refine ⟨l', active, ?_, ?_, ?_, hstands⟩
    · rw [if_pos hnew]
      exact (bind_of_ok rfl).trans ((bind_of_ok htell).trans hrest)
    · rwa [howner]
    · rw [if_pos hnew, howner, hheard]
  · obtain rfl := not_not.mp hnew
    obtain ⟨l', hrest, hstands, howner⟩ := hm.rearmed setup
    refine ⟨l', true, ?_, ?_, ?_, hstands⟩
    · rw [if_neg hnew]
      exact hrest
    · rwa [howner]
    · rw [if_neg hnew, howner, List.append_nil]

/-- A watch that begins reads the signal at once, and tells the value whatever it is. -/
theorem watched {b : Bool} (ht : Tended served l) (hnone : served c.feed = none)
    (hid : c.id = l.host.watches.length) (hl : c.Heeds listen) (hf : c.fit l.host.owner)
    (hb : c.signal.state setup l.host.world = .ok b) :
    ∃ l' active, watch setup listen c.feed l = .ok c.id l' ∧ c.fit l'.host.owner ∧
      c.heard l'.host.owner = c.heard l.host.owner ++ [b] ∧
      c.Stands ⟨c.feed, active, some (.flag b)⟩ (some c.id) l' := by
  have hopen : c.Stands ⟨c.feed, true, none⟩ none { l with host := { l.host with
      watches := l.host.watches ++ [{ feed := c.feed }] } } := by
    refine ⟨⟨served, ⟨ht.timed, fun feed id hserved => ?_⟩, hnone⟩, ?_, rfl⟩
    · obtain ⟨w, hw, hfeed⟩ := ht.named feed id hserved
      exact ⟨w, (List.getElem?_append_left (List.getElem?_eq_some_iff.mp hw).1).trans hw, hfeed⟩
    · rw [hid]
      exact List.getElem?_concat_length
  obtain ⟨m, hask, hunread⟩ := ask_ok listen (l := { l with host := { l.host with
    watches := l.host.watches ++ [{ feed := c.feed }] } }) hb
  have hseen := (hopen.spared hunread.spares).modified
    (fun w => { w with last := some (.flag b) }) fun _ => rfl
  have hfm : c.fit m.host.owner := hunread.owner ▸ hf
  obtain ⟨k, active, htell, hfk, hheard, hk⟩ := hseen.told (b := b) hl hfm
  obtain ⟨l', harm, hstands, howner⟩ := hk.armed setup
  refine ⟨l', active, ?_, howner ▸ hfk, ?_, hstands⟩
  · rw [watch, bind_get]
    dsimp only
    rw [if_neg c.signal.feed_ne_settingsFile, ← hid]
    exact (bind_of_ok rfl).trans ((bind_of_ok hask).trans ((bind_of_ok rfl).trans
      ((bind_of_ok htell).trans ((bind_of_ok harm).trans rfl))))
  · rw [howner, hheard, hunread.owner]

end Polling

end Subscriber

end TrafficIndicator.Station
