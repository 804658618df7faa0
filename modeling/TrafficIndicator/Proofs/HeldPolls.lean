import TrafficIndicator.Application
import TrafficIndicator.Proofs.FreshStart

/-!
A feed is polled only while the indicator remembers a watch of it. A watch that fails arms no
poll, and the number of one that comes to its end is remembered before anything else can fail;
a poll that goes on was held before. This survives every halt, and so nothing waits in the
queue once the indicator is detached.
-/
namespace TrafficIndicator

namespace Panel

open Loop Indicator

variable {τ : Type}

def Listed (numbers : List (List Nat)) (feeds : List Feed) (feed : Feed) : Prop :=
  ∃ ids ∈ numbers, ∃ id ∈ ids, feeds[id]? = some feed

theorem Listed.append {numbers : List (List Nat)} {feeds : List Feed} {feed : Feed}
    (h : Listed numbers feeds feed) (more : List Feed) : Listed numbers (feeds ++ more) feed := by
  obtain ⟨ids, hids, id, hid, hf⟩ := h
  obtain ⟨hlt, -⟩ := List.getElem?_eq_some_iff.mp hf
  exact ⟨ids, hids, id, hid, (List.getElem?_append_left hlt).trans hf⟩

theorem Listed.cons {numbers : List (List Nat)} {feeds : List Feed} {feed : Feed}
    (h : Listed numbers feeds feed) (ids : List Nat) : Listed (ids :: numbers) feeds feed := by
  obtain ⟨ids', hids, hf⟩ := h
  exact ⟨ids', List.mem_cons_of_mem _ hids, hf⟩

def feeds (l : Running τ) : List Feed := l.host.watches.map Watch.feed

def HeldBy (numbers : List (List Nat)) (l : Running τ) : Prop :=
  ∀ feed, l.host.slots.isArmed feed = true → Listed numbers (feeds l) feed

def HeldWith (ids : List Nat) (l : Running τ) : Prop := HeldBy (ids :: l.host.owner.watches) l

def Held (l : Running τ) : Prop := HeldBy l.host.owner.watches l

theorem Held.with {l : Running τ} (h : Held l) (ids : List Nat) : HeldWith ids l :=
  fun feed ha => (h feed ha).cons ids

/-- What depends on the polls, the watches and their numbers alone, and on whether the settings
file tells what is new, and is kept when polls end. -/
structure OfPolls (P : Running τ → Prop) (R : Halt → Running τ → Prop) : Prop where
  same : ∀ l l', l'.host.slots = l.host.slots → feeds l' = feeds l →
    l'.host.owner.watches = l.host.owner.watches →
    l'.host.file.listening = l.host.file.listening → P l → P l'
  disarms : ∀ l feed, P l →
    P (Station.withSlots l (l.host.slots.disarm (fun _ => true) feed l.queue))
  halts : ∀ e l, P l → R e l

namespace OfPolls

variable {P : Running τ → Prop} {R : Halt → Running τ → Prop} {setup : Setup τ}
  (hp : OfPolls P R)

include hp

theorem ofReading : Station.OfReading P R where
  file l _ hf h := hp.same l _ rfl rfl rfl hf h
  notices l _ h := hp.same l _ rfl rfl rfl rfl h
  asked l _ h := hp.same l _ rfl rfl rfl rfl h
  halts f := hp.halts (.fault f)

theorem modifyWatch (id : Nat) {f : Watch → Watch} (hf : ∀ w, (f w).feed = w.feed) :
    Ends P R (Station.modifyWatch id f : Act τ Unit) := by
  refine ends_modifyHost fun l h => hp.same l _ rfl ?_ rfl rfl h
  change (l.host.watches.modify id f).map Watch.feed = l.host.watches.map Watch.feed
  refine List.ext_getElem? fun i => ?_
  rw [List.getElem?_map, List.getElem?_map, List.getElem?_modify]
  cases l.host.watches[i]? with
  | none => rfl
  | some w =>
    refine congrArg some ?_
    dsimp only
    split
    · exact hf w
    · rfl

theorem unwatch (hm : ∀ l f, P l → P { l with host := { l.host with file := f } }) (id : Nat) :
    Ends P R (Station.unwatch id : Act τ Unit) :=
  Station.ends_unwatch
    (fun l id h => hp.modifyWatch id (f := fun w => { w with active := false }) (fun _ => rfl) l h)
    hp.disarms hm id

variable [TimeScale τ]

theorem perform (r : Request τ) : Ends P R (Panel.perform setup r) := by
  cases r with
  | send c =>
    refine ends_bind ends_get fun l => ?_
    generalize l.host.owner.screen.take c = taken
    refine ends_bind (ends_modifyHost fun l h => hp.same l _ rfl rfl rfl rfl h) fun _ => ?_
    cases taken.2 with
    | none => exact ends_pure _
    | some f => exact ends_throw fun l h => hp.halts _ l h
  | arm kind delay =>
    exact ends_bind ends_get fun _ => ends_modify fun l h => hp.same l _ rfl rfl rfl rfl h
  | disarm kind => exact ends_modify fun l h => hp.same l _ rfl rfl rfl rfl h
  | note n => exact ends_modify fun l h => hp.same l _ rfl rfl rfl rfl h

theorem react (f : Indicator τ → Reaction τ) : Ends P R (Panel.react setup f) :=
  ends_react (fun l _ h => hp.same l _ rfl rfl rfl rfl h) (fun r => hp.perform r) hp.halts f

theorem ask (feed : Feed) : Ends P R (Station.ask setup.station (listen setup) feed) :=
  Station.ends_ask hp.ofReading (fun _ _ => hp.react _) feed

theorem tell (feed : Feed) (s : Sighting) : Ends P R (Station.tell (listen setup) feed s) :=
  Station.ends_tell (fun _ => hp.react _) feed s

theorem tick : Ends P R (Panel.tick setup) := by
  refine ends_bind ends_get fun l => ends_ite ?_ (ends_pure _)
  refine ends_bind ?_ fun reading => hp.react _
  exact ends_bind ends_get fun _ => ends_pure _

end OfPolls

theorem OfPolls.knowing {P : Running τ → Prop} {R : Halt → Running τ → Prop} (hp : OfPolls P R)
    (K : List Feed → List (List Nat) → Prop) :
    OfPolls (fun l => P l ∧ K (feeds l) l.host.owner.watches) R where
  same l l' hs hf hw hl h := by
    refine ⟨hp.same l l' hs hf hw hl h.1, ?_⟩
    rw [hf, hw]
    exact h.2
  disarms l feed h := ⟨hp.disarms l feed h.1, h.2⟩
  halts e l h := hp.halts e l h.1

section Watching

variable [TimeScale τ] {setup : Setup τ} {l : Running τ}

theorem HeldBy.arm {numbers : List (List Nat)} {feed : Feed} (h : HeldBy numbers l)
    (hf : Listed numbers (feeds l) feed) (deadline : τ) (id : Nat) :
    HeldBy numbers (Station.withSlots l
      (l.host.slots.arm (fun _ => true) feed deadline (.poll feed id) l.queue)) := by
  intro other ha
  have harmed := Slots.isArmed_arm (fun _ => true) feed other deadline (Job.poll feed id)
    l.host.slots l.queue
  have hor := harmed.symm.trans ha
  rw [Bool.or_eq_true, decide_eq_true_eq] at hor
  rcases hor with ha | rfl
  · exact h other ha
  · exact hf

omit [TimeScale τ] in
def listing (l : Running τ) (feed : Feed) : Running τ :=
  { l with host := { l.host with
      file := if feed = .settingsFile then { listening := true } else l.host.file
      watches := l.host.watches ++ [{ feed := feed }] } }

omit [TimeScale τ] in
theorem feeds_listing (l : Running τ) (feed : Feed) : feeds (listing l feed) = feeds l ++ [feed] :=
  List.map_append

/-- A watch asks its feed and tells what it says. Its poll is armed in the end, when nothing can
halt any more. -/
theorem OfPolls.watch {P : Running τ → Prop} {R : Halt → Running τ → Prop}
    {Q : Nat → Running τ → Prop} (hp : OfPolls P R) (feed : Feed) (h : P (listing l feed))
    (harm : ∀ m deadline id, P m → (feeds m)[id]? = some feed → Q id (Station.withSlots m
      (m.host.slots.arm (fun _ => true) feed deadline (.poll feed id) m.queue))) :
    Yields Q R (Station.watch setup.station (listen setup) feed l) := by
  let id := l.host.watches.length
  let Listing (m : Running τ) : Prop := P m ∧ (feeds m)[id]? = some feed
  have hlisting : OfPolls Listing R := hp.knowing fun feeds _ => feeds[id]? = some feed
  have hrest : ∀ m : Running τ,
      Listing { m with host.watches := m.host.watches ++ [{ feed := feed }] } →
      Yields Q R ((do
        modifyHost fun s => { s with watches := s.watches ++ [{ feed := feed }] }
        let seen ← Station.ask setup.station (listen setup) feed
        Station.modifyWatch id fun w => { w with last := some seen }
        Station.tell (listen setup) feed seen
        Station.armPoll setup.station feed id
        return id : Act τ Nat) m) := by
    intro m hm
    refine yields_bind (Q := fun _ => Listing) hm fun _ m hm => ?_
    refine yields_bind (hlisting.ask feed m hm).yields fun seen m hm => ?_
    have hseen : Ends Listing R
        (Station.modifyWatch id fun w => { w with last := some seen } : Act τ Unit) :=
      hlisting.modifyWatch id fun _ => rfl
    refine yields_bind (hseen m hm).yields fun _ m hm => ?_
    refine yields_bind (hlisting.tell feed seen m hm).yields fun _ m hm => ?_
    exact harm m _ id hm.1 hm.2
  have hlisted : (feeds (listing l feed))[id]? = some feed := by
    have hlen : id = (feeds l).length := (List.length_map _).symm
    rw [feeds_listing, hlen]
    exact List.getElem?_concat_length
  rw [Station.watch, bind_get]
  split <;> rename_i hfeed
  · rw [listing, if_pos hfeed] at h hlisted
    exact hrest { l with host.file := { listening := true } } ⟨h, hlisted⟩
  · rw [listing, if_neg hfeed] at h hlisted
    exact hrest l ⟨h, hlisted⟩

end Watching

section Attaching

variable [TimeScale τ] {setup : Setup τ} {l : Running τ}

end Attaching

structure Kempt [TimeScale τ] (l : Running τ) : Prop where
  geared : InGear l
  held : Held l

section Real

variable [TimeScale τ] {setup : Setup τ} {l l' : Running τ}

theorem Kempt.around (h : Kempt l) (hg : gear l' = gear l) (hf : feeds l' = feeds l)
    (hw : l'.host.owner.watches = l.host.owner.watches) : Kempt l' where
  geared := by
    have hgeared : Geared (gear l').timers (gear l').slots (gear l').queue := by
      rw [hg]
      exact h.geared
    exact hgeared
  held := by
    have hslots : l'.host.slots = l.host.slots := congrArg Gear.slots hg
    rw [Held, hw, HeldBy, hslots, hf]
    exact h.held

variable (hs : setup.reaches = fun _ => true)

include hs

end Real

end Panel

end TrafficIndicator
