import TrafficIndicator.Proofs.Endings
import TrafficIndicator.Station.Watching

/-!
Reading feeds, remembering what was read and arming polls are the station's own doings. They
leave its owner alone, so whatever the listener keeps of the owner is kept by every watch
and every poll, whether they come to their end or halt.
-/
namespace TrafficIndicator.Station

open Loop

variable {τ ρ α : Type} {P : Loop τ Job (Station τ ρ) → Prop}
  {R : Halt → Loop τ Job (Station τ ρ) → Prop} {Q : ρ → Prop}

structure OfOwner (P : Loop τ Job (Station τ ρ) → Prop)
    (R : Halt → Loop τ Job (Station τ ρ) → Prop) : Prop where
  same : ∀ l l', l'.host.owner = l.host.owner → P l → P l'
  halts : ∀ e l, P l → R e l

/-- What a reading may change does not matter: what is remembered of the settings file, the
notices and the sessions that were asked for. It halts at faults alone. -/
structure OfReading (P : Loop τ Job (Station τ ρ) → Prop)
    (R : Halt → Loop τ Job (Station τ ρ) → Prop) : Prop where
  file : ∀ l f, f.listening = l.host.file.listening → P l →
    P { l with host := { l.host with file := f } }
  notices : ∀ l ns, P l → P { l with host := { l.host with notices := ns } }
  asked : ∀ l ids, P l → P { l with host := { l.host with asked := ids } }
  halts : ∀ f l, P l → R (.fault f) l

theorem OfOwner.ofReading (hp : OfOwner P R) : OfReading P R where
  file l _ _ h := hp.same l _ rfl h
  notices l _ h := hp.same l _ rfl h
  asked l _ h := hp.same l _ rfl h
  halts f := hp.halts (.fault f)

def withSlots (l : Loop τ Job (Station τ ρ)) (t : Slots Feed × Queue τ Job) :
    Loop τ Job (Station τ ρ) :=
  { l with queue := t.2, host := { l.host with slots := t.1 } }

/-- What watches do beside that: the settings file begins to tell what is new, and ends, they are
listed, and their polls are armed and disarmed. -/
structure OfDoings [TimeScale τ] (P : Loop τ Job (Station τ ρ) → Prop)
    (R : Halt → Loop τ Job (Station τ ρ) → Prop) : Prop extends OfReading P R where
  memory : ∀ l f, P l → P { l with host := { l.host with file := f } }
  watches : ∀ l ws, P l → P { l with host := { l.host with watches := ws } }
  disarms : ∀ l feed, P l →
    P (withSlots l (l.host.slots.disarm (fun _ => true) feed l.queue))
  arms : ∀ l feed deadline id, P l →
    P (withSlots l (l.host.slots.arm (fun _ => true) feed deadline (.poll feed id) l.queue))

theorem OfOwner.ofDoings [TimeScale τ] (hp : OfOwner P R) : OfDoings P R where
  toOfReading := hp.ofReading
  memory l _ h := hp.same l _ rfl h
  watches l _ h := hp.same l _ rfl h
  disarms l _ h := hp.same l _ rfl h
  arms l _ _ _ h := hp.same l _ rfl h

theorem ends_onSlots (hp : OfOwner P R)
    (f : Slots Feed → Queue τ Job → Slots Feed × Queue τ Job) :
    Ends P R (onSlots f : Act τ ρ Unit) :=
  ends_modify fun l h => hp.same l _ rfl h

theorem ends_unwatch
    (hw : ∀ l id, P l → P { l with host := { l.host with
      watches := l.host.watches.modify id fun w => { w with active := false } } })
    (hd : ∀ l feed, P l → P (withSlots l (l.host.slots.disarm (fun _ => true) feed l.queue)))
    (hf : ∀ l f, P l → P { l with host := { l.host with file := f } }) (id : Nat) :
    Ends P R (unwatch id : Act τ ρ Unit) := by
  refine ends_bind ends_get fun l => ?_
  split
  · exact ends_pure _
  · refine ends_bind (ends_modifyHost fun l h => hw l id h) fun _ => ?_
    refine ends_bind (ends_modify fun l h => hd l _ h) fun _ => ?_
    exact ends_ite (ends_modifyHost fun l h => hf l _ h) (ends_pure _)

section Reading

variable {setup : Setup τ} {listen : Listener τ ρ} (hp : OfReading P R)

include hp

theorem ends_modifyFile {f : FileMemory → FileMemory} (hf : ∀ m, (f m).listening = m.listening) :
    Ends P R (modifyFile f : Act τ ρ Unit) :=
  ends_modifyHost fun l h => hp.file l _ (hf _) h

theorem ends_report (ns : List (Notice τ)) : Ends P R (report ns : Act τ ρ Unit) :=
  ends_modifyHost fun l h => hp.notices l _ h

theorem ends_observe (o : Observed τ α) : Ends P R (observe o : Act τ ρ α) := by
  refine ends_bind (ends_report hp _) fun _ => ?_
  cases o.outcome with
  | ok a => exact ends_pure a
  | error f => exact ends_throw (hp.halts _)

variable (h : ∀ key value, Ends P R (listen (.setting key value)))

include h

theorem ends_tellSetting (e : LooseText × Value) : Ends P R (tellSetting listen e) := by
  refine ends_bind (ends_report hp _) fun _ => ends_bind ends_get fun l => ?_
  exact ends_ite (h _ _) (ends_throw (hp.halts _))

theorem ends_reload : Ends P R (reload setup listen) := by
  refine ends_bind ends_get fun l => ends_bind (ends_observe hp _) fun found => ?_
  cases found with
  | none => exact ends_pure _
  | some entries =>
    refine ends_bind (ends_modifyFile hp fun _ => rfl) fun _ => ends_ite ?_ (ends_pure _)
    exact ends_forM _ fun e _ => ends_tellSetting hp h e

theorem ends_look : Ends P R (look setup listen) := by
  refine ends_bind ends_get fun l => ?_
  dsimp only
  split
  · exact ends_throw (hp.halts _)
  · exact ends_pure _
  · refine ends_ite ?_ (ends_bind ends_get fun _ => ends_pure _)
    exact ends_bind (ends_modifyFile hp fun _ => rfl) fun _ =>
      ends_bind (ends_reload hp h) fun _ => ends_bind ends_get fun _ => ends_pure _

theorem ends_ask (feed : Feed) : Ends P R (ask setup listen feed) := by
  cases feed with
  | interfaces =>
    exact ends_bind ends_get fun _ => ends_bind (ends_observe hp _) fun _ => ends_pure _
  | session =>
    have hrest : Ends P R (do
        return Sighting.flag (← observe ((← get).host.world.locked setup.session)) :
        Act τ ρ Sighting) :=
      ends_bind ends_get fun _ => ends_bind (ends_observe hp _) fun _ => ends_pure _
    have hasked : Ends P R (modifyHost fun s => { s with asked := s.asked ++ [setup.session] } :
        Act τ ρ Unit) :=
      ends_modifyHost fun l hl => hp.asked l _ hl
    rw [ask]
    exact ends_ite (ends_bind hasked fun _ => hrest) hrest
  | settingsFile => exact ends_bind (ends_look hp h) fun _ => ends_pure _

end Reading

section Listening

variable {setup : Setup τ} {listen : Listener τ ρ}

theorem ends_tell (h : ∀ d, Ends P R (listen d)) (feed : Feed) (s : Sighting) :
    Ends P R (tell listen feed s) := by
  rw [tell.eq_def]
  split
  · exact h _
  · exact h _
  · exact ends_pure _

variable [TimeScale τ]

namespace OfDoings

variable (hp : OfDoings P R)

include hp

theorem modifyWatch (id : Nat) (f : Watch → Watch) :
    Ends P R (Station.modifyWatch id f : Act τ ρ Unit) :=
  ends_modifyHost fun l h => hp.watches l _ h

theorem armPoll (setup : Setup τ) (feed : Feed) (id : Nat) :
    Ends P R (Station.armPoll setup feed id : Act τ ρ Unit) :=
  ends_bind ends_get fun _ => ends_modify fun l h => hp.arms l feed _ id h

theorem unwatch (id : Nat) : Ends P R (Station.unwatch id : Act τ ρ Unit) :=
  ends_unwatch (fun l _ h => hp.watches l _ h) hp.disarms hp.memory id

variable (h : ∀ d, Ends P R (listen d))

include h

theorem watch (feed : Feed) : Ends P R (Station.watch setup listen feed) := by
  have hadd : Ends P R (modifyHost fun s =>
      { s with watches := s.watches ++ [{ feed := feed }] } : Act τ ρ Unit) :=
    ends_modifyHost fun l hl => hp.watches l _ hl
  have hrest : ∀ id, Ends P R (do
      modifyHost fun s => { s with watches := s.watches ++ [{ feed := feed }] }
      let seen ← ask setup listen feed
      Station.modifyWatch id fun w => { w with last := some seen }
      tell listen feed seen
      Station.armPoll setup feed id
      return id : Act τ ρ Nat) := fun id =>
    ends_bind hadd fun _ => ends_bind (ends_ask hp.toOfReading (fun _ _ => h _) feed) fun seen =>
      ends_bind (hp.modifyWatch _ _) fun _ => ends_bind (ends_tell h feed seen) fun _ =>
        ends_bind (hp.armPoll setup feed id) fun _ => ends_pure id
  refine ends_bind ends_get fun l => ends_ite ?_ (hrest _)
  exact ends_bind (ends_modifyHost fun l hl => hp.memory l _ hl) fun _ => hrest _

theorem poll (feed : Feed) (id : Nat) : Ends P R (Station.poll setup listen feed id) := by
  have hrest : Ends P R (do
      if ((← get).host.watches[id]?).any (·.active) then Station.armPoll setup feed id :
        Act τ ρ Unit) :=
    ends_bind ends_get fun _ => ends_ite (hp.armPoll setup feed id) (ends_pure _)
  refine ends_bind ends_get fun l => ?_
  split
  · exact ends_pure _
  · refine ends_ite ?_ (ends_pure _)
    refine ends_bind (ends_ask hp.toOfReading (fun _ _ => h _) feed) fun seen =>
      ends_ite ?_ hrest
    exact ends_bind (hp.modifyWatch _ _) fun _ =>
      ends_bind (ends_tell h feed seen) fun _ => hrest

end OfDoings

end Listening

abbrev KeepsOwner (Q : ρ → Prop) (x : Act τ ρ α) : Prop := Keeps (fun l => Q l.host.owner) x

theorem ofOwner_kept (Q : ρ → Prop) :
    OfOwner (fun l : Loop τ Job (Station τ ρ) => Q l.host.owner) (fun _ _ => True) where
  same l l' ho hq := by
    rw [ho]
    exact hq
  halts _ _ _ := trivial

theorem keepsOwner_onSlots (f : Slots Feed → Queue τ Job → Slots Feed × Queue τ Job) :
    KeepsOwner Q (onSlots f : Act τ ρ Unit) :=
  (ends_onSlots (ofOwner_kept Q) f).keeps

theorem keepsOwner_poll [TimeScale τ] {setup : Setup τ} {listen : Listener τ ρ}
    (h : ∀ d, KeepsOwner Q (listen d)) (feed : Feed) (id : Nat) :
    KeepsOwner Q (poll setup listen feed id) :=
  ((ofOwner_kept Q).ofDoings.poll (fun d => (h d).ends) feed id).keeps

end TrafficIndicator.Station
