import TrafficIndicator.Proofs.SignalWatch
import TrafficIndicator.Station.Observer

/-!
A history lists the values that a watch read, the latest first. A listener that is told those
that differ from the one told before hears values that alternate, and the last one it heard is
the last one that was read. Each read but the first is a poll of the watch, which waits alone of
its feed until the watch is ended, and then no poll waits any more.
-/
namespace TrafficIndicator

open Loop
open Ledger (Timed awaited pollFeed getElem?_modify_watch)

namespace Station

def deliveries : List Bool → List Bool
  | [] => []
  | b :: earlier =>
    if (deliveries earlier).head? = some b then deliveries earlier else b :: deliveries earlier

theorem head?_deliveries (reads : List Bool) : (deliveries reads).head? = reads.head? := by
  cases reads with
  | nil => rfl
  | cons b earlier =>
    rw [deliveries]
    split
    · assumption
    · rfl

theorem deliveries_cons (b : Bool) (earlier : List Bool) :
    deliveries (b :: earlier) =
      (if earlier.head? = some b then [] else [b]) ++ deliveries earlier := by
  rw [deliveries, head?_deliveries]
  split <;> rfl

theorem alternating_deliveries (reads : List Bool) : (deliveries reads).IsChain (· ≠ ·) := by
  induction reads with
  | nil => exact .nil
  | cons b earlier ih =>
    rw [deliveries]
    split
    · exact ih
    · rename_i hnew
      refine ih.cons fun c hc => ?_
      rintro rfl
      exact hnew hc

theorem getLast?_deliveries (reads : List Bool) :
    (deliveries reads).getLast? = reads.getLast? := by
  induction reads with
  | nil => rfl
  | cons b earlier ih =>
    cases earlier with
    | nil => rfl
    | cons c earlier =>
      rw [List.getLast?_cons_cons, ← ih, deliveries]
      split
      · rfl
      · cases hd : deliveries (c :: earlier) with
        | nil =>
          have hlast := head?_deliveries (c :: earlier)
          rw [hd] at hlast
          cases hlast
        | cons d told => rw [List.getLast?_cons_cons]

example : deliveries [false, true, true, false, false] = [false, true, false] := rfl

namespace Subscriber

variable {τ ρ : Type} {c : Subscriber ρ} {setup : Setup τ} {listen : Listener τ ρ}
  {own : Nat → TimerKind → Act τ ρ Unit} {served : Feed → Option Nat} {w : Watch}
  {due : Option Nat} {now : τ} {e : Entry τ Job} {q : Queue τ Job} {feed : Feed} {id : Nat}
  {b : Bool} {before reads more : List Bool} {l l' m start : Loop τ Job (Station τ ρ)}

def picked (e : Entry τ Job) (q : Queue τ Job) (l : Loop τ Job (Station τ ρ)) :
    Loop τ Job (Station τ ρ) :=
  withSlots l (l.host.slots.afterFiring pollFeed e, q)

theorem spares_live (hr : l.queue.Sound → q.Sound ∧ q.live = l.queue.live) :
    Spares c l { l with queue := q } := by
  refine ⟨fun served h => ⟨served, ⟨?_, h.named⟩, rfl⟩, rfl, fun i w hi => ⟨w, hi, rfl⟩⟩
  obtain ⟨hsound, hlive⟩ := hr h.timed.sound
  exact h.timed.of_live hsound hlive

section Taking

variable [TimeScale τ]

theorem Tended.taken (h : Tended served l) (ht : l.queue.takeDue now = (some e, q)) :
    Tended (fun f => if pollFeed e.job = some f then none else served f) (picked e q l) := by
  refine ⟨h.timed.fire ht fun _ => rfl, fun feed id hid => ?_⟩
  split at hid
  · cases hid
  · exact h.named feed id hid

theorem spares_taken (ht : l.queue.takeDue now = (some e, q)) (hk : pollFeed e.job ≠ some c.feed) :
    Spares c l (picked e q l) :=
  ⟨fun _ h => ⟨_, h.taken ht, if_neg hk⟩, rfl, fun _ w hi => ⟨w, hi, rfl⟩⟩

theorem Stands.taken (h : c.Stands w due l) (ht : l.queue.takeDue now = (some e, q))
    (hj : e.job = .poll c.feed id) : due = some id ∧ c.Stands w none (picked e q l) := by
  obtain ⟨served, htended, hdue⟩ := h.tended
  have hkind : pollFeed e.job = some c.feed := by
    rw [hj]
    rfl
  exact ⟨hdue.symm.trans (htended.timed.serves ht hj), ⟨_, htended.taken ht, if_pos hkind⟩, h.watch,
    h.feed⟩

theorem fire_poll (hj : e.job = .poll feed id) :
    fire setup listen own e { l with queue := q } = poll setup listen feed id (picked e q l) := by
  rw [fire, picked, Slots.afterFiring, hj]
  rfl

theorem fire_own {kind : TimerKind} (hj : e.job = .own kind) :
    fire setup listen own e { l with queue := q } = own e.token kind (picked e q l) := by
  rw [fire, picked, Slots.afterFiring, hj]
  rfl

end Taking

theorem leads_unwatch (c : Subscriber ρ) (l : Loop τ Job (Station τ ρ)) :
    ∃ l', unwatch c.id l = .ok () l' ∧ c.Leads [] l l' := by
  have hends : Ends (fun m : Loop τ Job (Station τ ρ) => m.host.owner = l.host.owner)
      (fun _ _ => False) (unwatch c.id) :=
    ends_unwatch (fun _ _ h => h) (fun _ _ h => h) (fun _ _ h => h) c.id
  obtain ⟨l', hl'⟩ := (hends l rfl).total fun _ _ h => h
  have howner := hends.keeps l () l' hl' rfl
  refine ⟨l', hl', .ended .refl hl', ?_, ?_⟩
  · rw [howner]
    exact fun hf => hf
  · rw [howner, List.append_nil]

theorem Meanwhile.feeds (h : Meanwhile c l l') :
    ∀ (i : Nat) (w : Watch), l.host.watches[i]? = some w →
      ∃ w', l'.host.watches[i]? = some w' ∧ w'.feed = w.feed := by
  induction h with
  | refl => exact fun i w hi => ⟨w, hi, rfl⟩
  | spared _ hs ih =>
    intro i w hi
    obtain ⟨v, hv, hfeed⟩ := ih i w hi
    obtain ⟨v', hv', hfeed'⟩ := hs.feeds i v hv
    exact ⟨v', hv', hfeed'.trans hfeed⟩
  | @ended m l' _ hu ih =>
    have hkeeps : Keeps (fun l' : Loop τ Job (Station τ ρ) => ∀ (i : Nat) (w : Watch),
        l.host.watches[i]? = some w → ∃ w', l'.host.watches[i]? = some w' ∧ w'.feed = w.feed)
        (unwatch c.id) := by
      refine Ends.keeps (R := fun _ _ => True) ?_
      refine ends_unwatch (fun k id hk i w hi => ?_) (fun _ _ hk => hk) (fun _ _ hk => hk) c.id
      obtain ⟨v, hv, hfeed⟩ := hk i w hi
      refine ⟨_, getElem?_modify_watch hv id _, ?_⟩
      split
      · exact hfeed
      · exact hfeed
    exact hkeeps m () l' hu ih

theorem ends_tell_other {P : Loop τ Job (Station τ ρ) → Prop}
    {R : Halt → Loop τ Job (Station τ ρ) → Prop} (hfeed : feed ≠ c.feed)
    (h : ∀ d, c.signal.value? d = none → Ends P R (listen d)) (seen : Sighting) :
    Ends P R (tell listen feed seen) := by
  rw [Subscriber.feed] at hfeed
  rw [tell.eq_def]
  split
  · refine h _ ?_
    cases hs : c.signal with
    | connection =>
      rw [hs] at hfeed
      exact absurd rfl hfeed
    | lock => rfl
  · refine h _ ?_
    cases hs : c.signal with
    | connection => rfl
    | lock =>
      rw [hs] at hfeed
      exact absurd rfl hfeed
  · exact ends_pure _

theorem spares_seen (hid : id ≠ c.id) (seen : Sighting) :
    Spares c l { l with host := { l.host with
      watches := l.host.watches.modify id fun w => { w with last := some seen } } } := by
  have hsame : ∀ (i : Nat) (w : Watch), l.host.watches[i]? = some w →
      ∃ w', (l.host.watches.modify id fun w => { w with last := some seen })[i]? = some w' ∧
        w'.feed = w.feed := by
    intro i w hi
    refine ⟨_, getElem?_modify_watch hi id _, ?_⟩
    split
    · rfl
    · rfl
  refine ⟨fun served h => ⟨served, ⟨h.timed, fun feed i hi => ?_⟩, rfl⟩, ?_, hsame⟩
  · obtain ⟨w, hw, hfeed⟩ := h.named feed i hi
    obtain ⟨w', hw', hfeed'⟩ := hsame i w hw
    exact ⟨w', hw', hfeed'.trans hfeed⟩
  · exact List.getElem?_modify_ne _ _ hid

theorem spares_armed [TimeScale τ] (hfeed : feed ≠ c.feed)
    (hid : ∃ w, l.host.watches[id]? = some w ∧ w.feed = feed) (deadline : τ) :
    Spares c l
      (withSlots l (l.host.slots.arm (fun _ => true) feed deadline (.poll feed id) l.queue)) :=
  ⟨fun _ h => ⟨_, h.armed hid deadline, if_neg hfeed.symm⟩, rfl, fun _ w hi => ⟨w, hi, rfl⟩⟩

theorem Stands.kept_after (h : c.Stands w due l) (hm : Meanwhile c l m) :
    ∃ served, Tended served m := by
  rcases h.meanwhile hm with hstands | hstands
  · exact hstands.kept
  · exact hstands.kept

theorem Leads.aside (h : c.Leads [] l m) (hs : Spares c m l')
    (ho : l'.host.owner = m.host.owner) : c.Leads [] l l' :=
  h.trans (hs.leads ho)

theorem ofReading_leads (l : Loop τ Job (Station τ ρ)) :
    OfReading (c.Leads [] l) (fun _ _ => True) where
  file _ _ _ h := h.aside (spares_around rfl rfl rfl) rfl
  notices _ _ h := h.aside (spares_around rfl rfl rfl) rfl
  asked _ _ h := h.aside (spares_around rfl rfl rfl) rfl
  halts _ _ _ := trivial

/-- A poll of another feed is no matter of the watch, but the listener may end it then. -/
theorem Stands.ends_poll_other [TimeScale τ] (h : c.Stands w due l) (setup : Setup τ)
    (hl : c.Heeds listen) (hf : c.fit l.host.owner) (hfeed : feed ≠ c.feed)
    (hid : ∃ v, l.host.watches[id]? = some v ∧ v.feed = feed) :
    Ends (c.Leads [] l) (fun _ _ => True) (poll setup listen feed id) := by
  obtain ⟨v, hv, hvfeed⟩ := hid
  have hother : id ≠ c.id := by
    rintro rfl
    cases hv.symm.trans h.watch
    exact hfeed (hvfeed.symm.trans h.feed)
  have hlisten : ∀ d, c.signal.value? d = none →
      Ends (c.Leads [] l) (fun _ _ => True) (listen d) := by
    intro d hd m hm
    obtain ⟨l', hl', hleads⟩ := hl d m (h.kept_after hm.meanwhile) (hm.fit hf)
    rw [hd] at hleads
    rw [hl']
    exact hm.trans hleads
  have hsetting : ∀ key value,
      Ends (c.Leads [] l) (fun _ _ => True) (listen (.setting key value)) := by
    intro key value
    refine hlisten _ ?_
    cases c.signal <;> rfl
  have hrest : Ends (c.Leads [] l) (fun _ _ => True) (do
      if ((← get).host.watches[id]?).any (·.active) then armPoll setup feed id :
        Act τ ρ Unit) := by
    refine ends_bind ends_get fun _ => ends_ite ?_ (ends_pure _)
    refine ends_bind ends_get fun k => ends_modify fun m hm => ?_
    obtain ⟨v', hv', hvfeed'⟩ := hm.meanwhile.feeds id v hv
    exact hm.aside (spares_armed hfeed ⟨v', hv', hvfeed'.trans hvfeed⟩ _) rfl
  refine ends_bind ends_get fun _ => ?_
  split
  · exact ends_pure _
  · refine ends_ite ?_ (ends_pure _)
    refine ends_bind (ends_ask (ofReading_leads l) hsetting feed) fun seen => ends_ite ?_ hrest
    refine ends_bind (ends_modifyHost fun m hm => ?_) fun _ => ?_
    · exact hm.aside (spares_seen hother seen) rfl
    · exact ends_bind (ends_tell_other hfeed hlisten seen) fun _ => hrest

/-- Timers of the owner's own, which do what is no matter of the watch, or end it. -/
def Apart (c : Subscriber ρ) (own : Nat → TimerKind → Act τ ρ Unit) : Prop :=
  ∀ token kind l l', (∃ served, Tended served l) → c.fit l.host.owner →
    own token kind l = .ok () l' → c.Leads [] l l'

section Running

variable [TimeScale τ]

/-- One step of a run, with the value that was read in it: a poll of the feed fires, or what is
no matter of the watch happens, such as a change of the world, or its end. -/
inductive Step (c : Subscriber ρ) (setup : Setup τ) (listen : Listener τ ρ)
    (own : Nat → TimerKind → Act τ ρ Unit) (l : Loop τ Job (Station τ ρ)) :
    List Bool → Loop τ Job (Station τ ρ) → Prop where
  | polled {now : τ} {e : Entry τ Job} {q : Queue τ Job} {id : Nat} {b : Bool}
    {l' : Loop τ Job (Station τ ρ)} (ht : l.queue.takeDue now = (some e, q))
    (hj : e.job = .poll c.feed id) (hb : c.signal.state setup l.host.world = .ok b)
    (h : fire setup listen own e { l with queue := q } = .ok () l') :
    Step c setup listen own l [b] l'
  | beside {l' : Loop τ Job (Station τ ρ)} (h : c.Leads [] l l') : Step c setup listen own l [] l'

/-- A run with the values that were read in it, the latest first. -/
inductive Steps (c : Subscriber ρ) (setup : Setup τ) (listen : Listener τ ρ)
    (own : Nat → TimerKind → Act τ ρ Unit) (start : Loop τ Job (Station τ ρ)) :
    List Bool → Loop τ Job (Station τ ρ) → Prop where
  | refl : Steps c setup listen own start [] start
  | tail {reads new : List Bool} {m l' : Loop τ Job (Station τ ρ)}
    (h : Steps c setup listen own start reads m) (hs : Step c setup listen own m new l') :
    Steps c setup listen own start (new ++ reads) l'

theorem Steps.trans (h : Steps c setup listen own l reads m)
    (h' : Steps c setup listen own m more l') : Steps c setup listen own l (more ++ reads) l' := by
  induction h' with
  | refl => exact h
  | tail _ hs ih =>
    rw [List.append_assoc]
    exact ih.tail hs

/-- What holds of a watch after each step: its listener heard the deliveries of what was read,
and the value that it saw last is the one that was read last. -/
structure Holds (c : Subscriber ρ) (before reads : List Bool) (l : Loop τ Job (Station τ ρ)) :
    Prop where
  fit : c.fit l.host.owner
  heard : c.heard l.host.owner = before ++ (deliveries reads).reverse
  saw : ∃ b active, reads.head? = some b ∧ c.Saw b active l

def Active (c : Subscriber ρ) (l : Loop τ Job (Station τ ρ)) : Prop :=
  (l.host.watches[c.id]?).any (·.active) = true

omit [TimeScale τ] in
instance (c : Subscriber ρ) (l : Loop τ Job (Station τ ρ)) : Decidable (c.Active l) :=
  inferInstanceAs (Decidable (_ = true))

omit [TimeScale τ] in
theorem Stands.active_iff (h : c.Stands w due l) : c.Active l ↔ w.active = true := by
  rw [Active, h.watch, Option.any_some]

omit [TimeScale τ] in
/-- What happens beside the polls leaves what holds of the watch, and cannot begin it again. -/
theorem Holds.leads (h : c.Holds before reads l) (hm : c.Leads [] l l') :
    c.Holds before reads l' := by
  obtain ⟨b, active, hb, hsaw⟩ := h.saw
  refine ⟨hm.fit h.fit, by rw [hm.heard, List.append_nil, h.heard], b, ?_⟩
  rcases hsaw.meanwhile hm.meanwhile with hstands | hstands
  · exact ⟨active, hb, hstands⟩
  · exact ⟨false, hb, hstands⟩

/-- A poll of the feed that is due is that of the watch, which is active and has none waiting. -/
theorem Holds.taken (h : c.Holds before reads l) (ht : l.queue.takeDue now = (some e, q))
    (hj : e.job = .poll c.feed id) :
    id = c.id ∧ ∃ b, reads.head? = some b ∧
      c.Stands ⟨c.feed, true, some (.flag b)⟩ none (picked e q l) := by
  obtain ⟨b, active, hb, hsaw⟩ := h.saw
  obtain ⟨hdue, hstands⟩ := Stands.taken hsaw ht hj
  cases active with
  | false => cases hdue
  | true => exact ⟨(Option.some.inj hdue).symm, b, hb, hstands⟩

/-- A poll of the feed that is due comes to its end if the signal can be read. -/
theorem Holds.polled (h : c.Holds before reads l) (own : Nat → TimerKind → Act τ ρ Unit)
    (hl : c.Heeds listen) (ht : l.queue.takeDue now = (some e, q)) (hj : e.job = .poll c.feed id)
    (hb : c.signal.state setup l.host.world = .ok b) :
    ∃ l', fire setup listen own e { l with queue := q } = .ok () l' ∧
      c.Holds before (b :: reads) l' := by
  obtain ⟨rfl, last, hlast, hstands⟩ := h.taken ht hj
  obtain ⟨l', active, hpoll, hfit, hheard, hsaw⟩ := hstands.polled rfl hl h.fit hb
  refine ⟨l', (fire_poll hj).trans hpoll, hfit, ?_, b, active, rfl, hsaw⟩
  rw [hheard, deliveries_cons, hlast]
  have htold : c.heard (picked e q l).host.owner = before ++ (deliveries reads).reverse :=
    h.heard
  rw [htold, List.reverse_append, List.append_assoc]
  by_cases hsame : b = last
  · subst hsame
    simp
  · simp [hsame, Ne.symm hsame]

theorem Holds.step {new : List Bool} (h : c.Holds before reads l) (hl : c.Heeds listen)
    (hs : Step c setup listen own l new l') : c.Holds before (new ++ reads) l' := by
  cases hs with
  | polled ht hj hb hfire =>
    obtain ⟨k, hk, hholds⟩ := h.polled own hl ht hj hb
    cases hk.symm.trans hfire
    exact hholds
  | beside hm => exact h.leads hm

theorem Holds.steps (h : c.Holds before reads l) (hl : c.Heeds listen)
    (hs : Steps c setup listen own l more l') : c.Holds before (more ++ reads) l' := by
  induction hs with
  | refl => exact h
  | tail _ hs ih =>
    rw [List.append_assoc]
    exact ih.step hl hs

theorem Stands.of_poll (h : c.Stands w due l) (ha : w.active = true) {u : Unit}
    (hp : poll setup listen c.feed c.id l = .ok u l') :
    ∃ b, c.signal.state setup l.host.world = .ok b := by
  rw [poll, get_bind_ok, h.watch] at hp
  dsimp only at hp
  rw [if_pos ha] at hp
  obtain ⟨seen, m, hask, -⟩ := bind_ok.mp hp
  exact of_ask hask

theorem Holds.fired (h : c.Holds before reads l) (hl : c.Heeds listen) (hown : c.Apart own)
    (ht : l.queue.takeDue now = (some e, q)) {u : Unit}
    (hfire : fire setup listen own e { l with queue := q } = .ok u l') :
    ∃ new, Step c setup listen own l new l' := by
  obtain ⟨last, active, -, hsaw⟩ := h.saw
  cases hj : e.job with
  | own kind =>
    have hother : pollFeed e.job ≠ some c.feed := by
      rw [hj]
      exact (Option.some_ne_none _).symm
    have hspares := spares_taken ht hother
    rw [fire_own hj] at hfire
    have hleads := hown e.token kind _ l' (hsaw.spared hspares).kept h.fit hfire
    exact ⟨[], .beside ((hspares.leads rfl).trans hleads)⟩
  | poll feed id =>
    by_cases hfeed : feed = c.feed
    · subst hfeed
      obtain ⟨rfl, _, -, hstands⟩ := h.taken ht hj
      obtain ⟨b, hb⟩ := hstands.of_poll rfl ((fire_poll hj).symm.trans hfire)
      exact ⟨[b], .polled ht hj hb hfire⟩
    · have hother : pollFeed e.job ≠ some c.feed := by
        rw [hj]
        exact fun hsame => hfeed (Option.some.inj hsame)
      have hspares := spares_taken ht hother
      obtain ⟨served, htended, -⟩ := hsaw.tended
      have hnamed := htended.named feed id (htended.timed.serves ht hj)
      rw [fire_poll hj] at hfire
      have hends := (hsaw.spared hspares).ends_poll_other setup hl h.fit hfeed hnamed
      have hleads := hends.keeps _ u l' hfire (.refl _)
      exact ⟨[], .beside ((hspares.leads rfl).trans hleads)⟩

theorem turns_steps (h : c.Holds before reads l) (hl : c.Heeds listen) (hown : c.Apart own) :
    Turns (fun m => ∃ more, Steps c setup listen own l more m) (fun _ _ => True)
      (fire setup listen own) where
  fires m now e q hm ht := by
    obtain ⟨more, hsteps⟩ := hm
    cases hfire : fire setup listen own e { m with queue := q } with
    | ok u m' =>
      obtain ⟨new, hstep⟩ := (h.steps hl hsteps).fired hl hown ht hfire
      exact ⟨_, hsteps.tail hstep⟩
    | error f m' => trivial
  idles m now q hm ht := by
    obtain ⟨more, hsteps⟩ := hm
    have hspares : Spares c m { m with queue := q } :=
      spares_live fun hsound => Queue.takeDue_none hsound ht
    exact ⟨_, hsteps.tail (.beside (hspares.leads rfl))⟩
  tires _ _ := trivial

theorem Holds.advance (h : c.Holds before reads l) (hl : c.Heeds listen) (hown : c.Apart own)
    {turns : Nat} {ms : τ} {u : Unit}
    (ha : Loop.advance (fire setup listen own) turns ms l = .ok u l') :
    ∃ more, Steps c setup listen own l more l' := by
  refine (ends_advance (turns_steps h hl hown) ?_ ?_ turns ms).keeps l u l' ha ⟨[], .refl⟩
  · rintro m ⟨more, hsteps⟩
    have hspares : Spares c m { m with queue := m.queue.settle } :=
      spares_live fun hsound => ⟨Queue.sound_settle hsound, Queue.live_settle hsound⟩
    exact ⟨_, hsteps.tail (.beside (hspares.leads rfl))⟩
  · rintro m t ⟨more, hsteps⟩
    have hspares : Spares c m { m with seconds := t } := spares_around rfl rfl rfl
    exact ⟨_, hsteps.tail (.beside (hspares.leads rfl))⟩

omit [TimeScale τ] in
theorem Holds.waits (h : c.Holds before reads l) (ha : c.Active l) :
    ∃ e, awaited c.feed l.queue = [e] ∧ e.job = .poll c.feed c.id := by
  obtain ⟨b, active, -, hsaw⟩ := h.saw
  obtain rfl : active = true := hsaw.active_iff.mp ha
  exact Stands.awaited hsaw

omit [TimeScale τ] in
theorem Holds.ended (h : c.Holds before reads l) (ha : ¬c.Active l) : ∃ b, c.Saw b false l := by
  obtain ⟨b, active, -, hsaw⟩ := h.saw
  cases active with
  | true => exact absurd (hsaw.active_iff.mpr rfl) ha
  | false => exact ⟨b, hsaw⟩

omit [TimeScale τ] in
theorem Saw.idle (h : c.Saw b false l) : ¬c.Active l ∧ awaited c.feed l.queue = [] := by
  refine ⟨?_, Stands.awaited h⟩
  rw [Stands.active_iff h]
  exact Bool.false_ne_true

theorem Saw.silent (h : c.Saw b false l) (hs : Steps c setup listen own l more l') :
    more = [] ∧ c.Saw b false l' ∧ c.heard l'.host.owner = c.heard l.host.owner := by
  induction hs with
  | refl => exact ⟨rfl, h, rfl⟩
  | tail _ hs ih =>
    obtain ⟨rfl, hsaw, hheard⟩ := ih
    cases hs with
    | polled ht hj hb hfire => cases (Stands.taken hsaw ht hj).1
    | beside hm =>
      refine ⟨rfl, ?_, ?_⟩
      · rcases hsaw.meanwhile hm.meanwhile with hstands | hstands
        · exact hstands
        · exact hstands
      · rw [hm.heard, List.append_nil, hheard]

/-- What a watch keeps to after a run in which it read some values. -/
structure Delivers (c : Subscriber ρ) (setup : Setup τ) (listen : Listener τ ρ)
    (own : Nat → TimerKind → Act τ ρ Unit) (before reads : List Bool)
    (l : Loop τ Job (Station τ ρ)) : Prop where
  heard : c.heard l.host.owner = before ++ (deliveries reads).reverse
  first : (deliveries reads).getLast? = reads.getLast?
  last : (deliveries reads).head? = reads.head?
  alternates : (deliveries reads).IsChain (· ≠ ·)
  /-- Exactly one poll of the feed waits while the watch is active, and it is its own. -/
  waits : c.Active l → ∃ e, awaited c.feed l.queue = [e] ∧ e.job = .poll c.feed c.id
  polls : ∀ now e q id b, l.queue.takeDue now = (some e, q) → e.job = .poll c.feed id →
    c.signal.state setup l.host.world = .ok b →
      ∃ l', fire setup listen own e { l with queue := q } = .ok () l' ∧
        Step c setup listen own l [b] l'
  changes : ∀ world seconds,
    Step c setup listen own l [] { l with seconds, host := { l.host with world } }
  passes : ∀ turns ms l', Loop.advance (fire setup listen own) turns ms l = .ok () l' →
    ∃ more, Steps c setup listen own l more l'
  ends : ∃ l', unwatch c.id l = .ok () l' ∧ Step c setup listen own l [] l' ∧ ¬c.Active l'
  /-- Nothing is left of a watch that was ended: no poll waits, nothing is read and nothing
  told any more, and another watch of the feed may begin. -/
  silent : ¬c.Active l → awaited c.feed l.queue = [] ∧
    (∃ served, Tended served l ∧ served c.feed = none) ∧
    ∀ more l', Steps c setup listen own l more l' → more = [] ∧ ¬c.Active l' ∧
      awaited c.feed l'.queue = [] ∧ c.heard l'.host.owner = c.heard l.host.owner

theorem Holds.delivers (h : c.Holds before reads l) (hl : c.Heeds listen) (hown : c.Apart own) :
    Delivers c setup listen own before reads l where
  heard := h.heard
  first := getLast?_deliveries reads
  last := head?_deliveries reads
  alternates := alternating_deliveries reads
  waits := h.waits
  polls now e q id b ht hj hb := by
    obtain ⟨l', hfire, -⟩ := h.polled own hl ht hj hb
    exact ⟨l', hfire, .polled ht hj hb hfire⟩
  changes world seconds := by
    have hspares : Spares c l { l with seconds, host := { l.host with world } } :=
      spares_around rfl rfl rfl
    exact .beside (hspares.leads rfl)
  passes turns ms l' ha := h.advance hl hown ha
  ends := by
    obtain ⟨b, active, -, hsaw⟩ := h.saw
    obtain ⟨l', hu, hleads⟩ := leads_unwatch c l
    have hended : c.Saw b false l' := Stands.ended hsaw hu
    exact ⟨l', hu, .beside hleads, hended.idle.1⟩
  silent ha := by
    obtain ⟨b, hended⟩ := h.ended ha
    refine ⟨hended.idle.2, hended.tended, fun more l' hs => ?_⟩
    obtain ⟨hmore, hended', hheard⟩ := hended.silent hs
    exact ⟨hmore, hended'.idle.1, hended'.idle.2, hheard⟩

/-- A watch of a signal begins with the value that is read at once. As long as the listener does
not end it before it has begun, it tells after that exactly the values that are read by a poll
and differ from the one told before. Between its polls exactly one waits, until the watch is
ended, be it by the listener while it is told. -/
theorem watch_delivers (hl : c.Heeds listen) (hown : c.Apart own) (ht : Tended served start)
    (hnone : served c.feed = none) (hid : c.id = start.host.watches.length)
    (hf : c.fit start.host.owner) (hb : c.signal.state setup start.host.world = .ok b) :
    ∃ first, watch setup listen c.feed start = .ok c.id first ∧
      (c.Active first → ∀ reads l, Steps c setup listen own first reads l →
        Delivers c setup listen own (c.heard start.host.owner) (reads ++ [b]) l) := by
  obtain ⟨first, active, hwatch, hfit, hheard, hstands⟩ := watched ht hnone hid hl hf hb
  refine ⟨first, hwatch, fun ha reads l hs => ?_⟩
  obtain rfl : active = true := hstands.active_iff.mp ha
  have hholds : c.Holds (c.heard start.host.owner) [b] first :=
    ⟨hfit, hheard, b, true, rfl, hstands⟩
  exact (hholds.steps hl hs).delivers hl hown

end Running

end Subscriber

end Station

namespace Observer

open Station

/-- What an observer heard of a signal, whose last watch is the one that is meant. -/
def hearing (signal : Signal) (id : Nat) : Subscriber Observer where
  signal := signal
  id := id
  heard o := o.seen.filterMap signal.value?
  fit o := ∀ i, o.watches.getLast? = some i → i = id

theorem heeds_signal {τ : Type} (signal : Signal) (id : Nat) :
    (hearing signal id).Heeds (listen : Listener τ Observer) := by
  intro d l _ hf
  obtain ⟨m, hrecord, hm⟩ : ∃ m, (modifyHost fun s => { s with
      owner := { s.owner with seen := s.owner.seen ++ [d] } } : Act τ Observer Unit) l =
      .ok () m ∧ (hearing signal id).Leads (signal.value? d).toList l m := by
    refine ⟨_, rfl, .spared .refl (Subscriber.spares_around rfl rfl rfl), fun h => h, ?_⟩
    refine List.filterMap_append.trans (congrArg _ ?_)
    cases h : signal.value? d <;> simp [h]
  have hends : EndsIn ((hearing signal id).Leads (signal.value? d).toList l)
      (fun _ _ => False) (listen d l) := by
    rw [listen, bind_of_ok hrecord, bind_get]
    cases m.host.owner.stopAt with
    | none => exact hm
    | some v =>
      cases single? d with
      | none => exact hm
      | some x =>
        cases hi : m.host.owner.watches.getLast? with
        | none => exact hm
        | some i =>
          obtain rfl : i = id := hm.fit hf i hi
          refine ends_ite (fun k hk => ?_) (ends_pure _) m hm
          obtain ⟨l', hu, hleads⟩ := Subscriber.leads_unwatch (hearing signal i) k
          have hboth := hk.trans hleads
          rw [List.append_nil] at hboth
          have hended : Station.unwatch i k = .ok () l' := hu
          rw [hended]
          exact hboth
  obtain ⟨l', hl'⟩ := hends.total fun _ _ h => h
  rw [hl'] at hends
  exact ⟨l', hl', hends⟩

def waiting : Loop Rat Job (Station Rat Observer) where
  seconds := 0
  host := { world := Ledger.wired "down", owner := { stopAt := some (.bool true) } }

def begun : Loop Rat Job (Station Rat Observer) :=
  (Session.runThrough (Station.watch Ledger.polling listen .interfaces) waiting).1

/-- The interface has come up since, and the observer knows its watch. -/
def connected : Loop Rat Job (Station Rat Observer) :=
  { begun with host := { begun.host with
    world := Ledger.wired "up"
    owner := { begun.host.owner with watches := [0] } } }

def polled : Loop Rat Job (Station Rat Observer) :=
  (Session.runThrough (Loop.advance (fire Ledger.polling) 3 1000) connected).1

/-- The runs of that observer, which has no timers of its own. -/
abbrev Run := Subscriber.Steps (τ := Rat) (hearing .connection 0) Ledger.polling listen
  fun _ _ => pure ()

/-- A poll tells that the interface came up, and the observer ends the watch while it is told.
No poll waits after that, and whatever happens the observer hears nothing more. -/
theorem watch_ended_while_told :
    ∃ reads, Run begun reads polled ∧
      (hearing .connection 0).heard polled.host.owner = [false, true] ∧
      awaited .interfaces polled.queue = [] ∧
      ∀ more l', Run polled more l' →
        (hearing .connection 0).heard l'.host.owner = [false, true] := by
  have hidle : Subscriber.Tended (fun _ => none) waiting := ⟨Ledger.timed_empty, nofun⟩
  have hapart : (hearing .connection 0).Apart (fun _ _ => (pure () : Act Rat Observer Unit)) := by
    intro token kind l l' _ _ h
    obtain ⟨-, rfl⟩ := pure_ok.mp h
    exact .refl l'
  have hdown : (hearing .connection 0).signal.state Ledger.polling waiting.host.world =
    .ok false := by decide +kernel
  obtain ⟨first, hwatch, hdelivers⟩ := Subscriber.watch_delivers (heeds_signal .connection 0)
    hapart hidle rfl rfl nofun hdown
  replace hwatch : Station.watch Ledger.polling listen .interfaces waiting = .ok 0 first := hwatch
  obtain rfl : begun = first := by rw [begun, Session.runThrough, EStateM.run, hwatch]
  have hactive : (hearing .connection 0).Active begun := by decide +kernel
  have hknown : (hearing .connection 0).Leads [] begun connected :=
    ⟨.spared .refl (Subscriber.spares_around rfl rfl rfl),
      fun _ i hi => (Option.some.inj hi).symm, (List.append_nil _).symm⟩
  have hconnected : Run begun [] connected := Subscriber.Steps.refl.tail (.beside hknown)
  have hadvance : Loop.advance (fire Ledger.polling) 3 1000 connected = .ok () polled :=
    Session.runThrough_unit (by decide +kernel)
  obtain ⟨reads, hreads⟩ := (hdelivers hactive [] connected hconnected).passes _ _ _ hadvance
  have hsteps := hconnected.trans hreads
  have hheard : (hearing .connection 0).heard polled.host.owner = [false, true] := by
    decide +kernel
  obtain ⟨hawaited, -, hsilent⟩ := (hdelivers hactive _ polled hsteps).silent (by decide +kernel)
  refine ⟨_, hsteps, hheard, hawaited, fun more l' hmore => ?_⟩
  obtain ⟨-, -, -, hsame⟩ := hsilent more l' hmore
  rw [hsame, hheard]

end Observer

end TrafficIndicator
