import TrafficIndicator.Proofs.JsonLimits
import TrafficIndicator.Proofs.PanelOperations
import TrafficIndicator.Proofs.SettingsDeliveries

/-!
Whatever lies at the path of the settings file, reading it gives the object that it holds, or
gives none and warns. Only a file whose bytes are no text, or whose text goes over a limit of
the reader, makes it break off; then nothing is told, and the entries that were read last stay.
-/
namespace TrafficIndicator

namespace FileNode

def object? : FileNode → Option (List (LooseText × Value))
  | .directory .. => none
  | .file content _ =>
    match String.fromUTF8? content with
    | none => none
    | some text =>
      match Json.read text.toList Json.unlimited with
      | .ok (.dict entries) => some entries
      | _ => none

/-- Why reading a file breaks off: its bytes are no text, or its text has an integer of too many
digits or more open brackets outside of its strings than are allowed. -/
inductive Breaks (nesting : Option Nat) : FileNode → Fault → Prop where
  | undecodable {content : ByteArray} {stamp : Stamp} (hu : String.fromUTF8? content = none) :
      Breaks nesting (.file content stamp) .undecodable
  | numeral {content : ByteArray} {stamp : Stamp} {text : String} {ds : List Char}
      (ht : String.fromUTF8? content = some text) (hi : Json.IntegerIn text.toList ds)
      (hl : digitLimit < ds.length) :
      Breaks nesting (.file content stamp) (.numeralTooLong ds.length)
  | nested {content : ByteArray} {stamp : Stamp} {text : String} {depth : Nat} {rest : List Char}
      (ht : String.fromUTF8? content = some text) (ha : Json.At text.toList depth rest)
      (hn : exceeds nesting depth = true) : Breaks nesting (.file content stamp) .tooDeep

end FileNode

inductive Sought {τ : Type} (nesting : Option Nat) (node : Option FileNode) :
    Observed τ (Option (List (LooseText × Value))) → Prop where
  | object {entries : List (LooseText × Value)}
      (h : node.bind FileNode.object? = some entries) :
      Sought nesting node ⟨[], .ok (some entries)⟩
  | nothing {n : Notice τ} (h : node.bind FileNode.object? = none) (hn : n.level = .warning) :
      Sought nesting node ⟨[n], .ok none⟩
  | breaks {file : FileNode} {f : Fault} (h : node = some file) (hf : file.Breaks nesting f) :
      Sought nesting node ⟨[], .error f⟩

variable {τ : Type} {nesting : Option Nat}

theorem Sought.outcome_of_whole {node : Option FileNode}
    {o : Observed τ (Option (List (LooseText × Value)))} (h : Sought nesting node o)
    (hwhole : ∀ file f, node = some file → ¬file.Breaks nesting f) :
    o.outcome = .ok (node.bind FileNode.object?) := by
  cases h with
  | object h => exact congrArg _ h.symm
  | nothing h _ => exact congrArg _ h.symm
  | breaks h hf => exact absurd hf (hwhole _ _ h)

theorem sought_file {w : World} {path : LooseText} {content : ByteArray} {stamp : Stamp}
    (h : w.node? path = .ok (some (.file content stamp))) :
    Sought (τ := τ) nesting (some (.file content stamp)) (w.settings path nesting) := by
  rw [World.settings, h]
  dsimp only
  cases ht : String.fromUTF8? content with
  | none => exact .breaks rfl (.undecodable ht)
  | some text =>
    dsimp only
    have hobject : FileNode.object? (.file content stamp) =
        match Json.read text.toList Json.unlimited with
        | .ok (.dict entries) => some entries
        | _ => none := by
      rw [FileNode.object?, ht]
    rcases Json.read_spared text.toList { depth := nesting } with hread | ⟨e, hread, he⟩
    · rw [hread]
      cases hv : Json.read text.toList Json.unlimited with
      | error e =>
        rw [Json.read_unlimited_error hv]
        refine .nothing ?_ rfl
        rw [Option.bind_some, hobject, hv]
      | ok v =>
        rw [hv] at hobject
        cases v with
        | dict entries => exact .object hobject
        | null | undefined | bool | int | float | text | list => exact .nothing hobject rfl
    · rw [hread]
      cases he with
      | digits hi hl => exact .breaks rfl (.numeral ht hi (of_decide_eq_true hl))
      | nesting ha hl => exact .breaks rfl (.nested ht ha hl)

theorem World.sought {w : World} {path : LooseText} {node : Option FileNode}
    (h : w.node? path = .ok node) : Sought (τ := τ) nesting node (w.settings path nesting) := by
  cases node with
  | none =>
    rw [World.settings, h]
    exact .nothing rfl rfl
  | some file =>
    cases file with
    | file content stamp => exact sought_file h
    | directory entries stamp =>
      rw [World.settings, h]
      exact .nothing rfl rfl

namespace Station

open Loop

variable {ρ σ : Type} {setup : Setup τ} {listen : Listener τ ρ} {view : ρ → σ}
  {note : σ → LooseText × Value → σ} {l l' m : Loop τ Job (Station τ ρ)}
  {node : Option FileNode}

/-- The entries that were found are kept and what changed is told, if anyone listens; where
none were found, all stays as it was. -/
structure Refreshed (view : ρ → σ) (note : σ → LooseText × Value → σ) (setup : Setup τ)
    (node : Option FileNode) (l l' : Loop τ Job (Station τ ρ)) : Prop where
  entries : l'.host.file.entries = (node.bind FileNode.object?).getD l.host.file.entries
  heard : view l'.host.owner =
    (if l.host.file.listening then
      ((node.bind FileNode.object?).map (changedEntries setup.defaults
        l.host.file.entries)).getD [] else []).foldl note (view l.host.owner)
  active : ∀ id, IsActive id l → IsActive id l'

structure Spoiled (nesting : Option Nat) (node : Option FileNode) (l : Loop τ Job (Station τ ρ))
    (h : Halt) (l' : Loop τ Job (Station τ ρ)) : Prop where
  cause : ∃ file f, node = some file ∧ file.Breaks nesting f ∧ h = .fault f
  entries : l'.host.file.entries = l.host.file.entries
  owner : l'.host.owner = l.host.owner
  active : ∀ id, IsActive id l → IsActive id l'

structure Untouched (l l' : Loop τ Job (Station τ ρ)) : Prop where
  file : l'.host.file = l.host.file
  owner : l'.host.owner = l.host.owner
  active : ∀ id, IsActive id l → IsActive id l'

theorem endsIn_reload (hl : Heeds listen view note)
    (hnode : l.host.world.node? setup.settingsPath = .ok node) :
    EndsIn (Refreshed view note setup node l) (Spoiled setup.nesting node l)
      (reload setup listen l) := by
  have hsought : Sought (τ := τ) setup.nesting node
      (l.host.world.settings setup.settingsPath setup.nesting) := World.sought hnode
  rw [reload, bind_get]
  dsimp only
  generalize l.host.world.settings setup.settingsPath setup.nesting = o at hsought ⊢
  cases hsought with
  | @object entries h =>
    let told := changedEntries setup.defaults l.host.file.entries entries
    let m : Loop τ Job (Station τ ρ) := { l with host := { l.host with
      notices := l.host.notices ++ []
      file := { l.host.file with entries := entries } } }
    change EndsIn _ _ ((if l.host.file.listening = true then told.forM (tellSetting listen)
      else pure () : Act τ ρ PUnit) m)
    split
    · rename_i hon
      obtain ⟨l', hl'⟩ := forM_ends (l := m) hl told hon
      have hn := forM_noted (fun m m' e hm => tellSetting_noted hl.notes (hm ▸ hon)) hl'
      rw [hl']
      refine ⟨?_, ?_, fun id ha => ha.of_watches hn.watches⟩
      · rw [hn.file, h]
        rfl
      · rw [hn.heard, h, if_pos hon]
        rfl
    · rename_i hoff
      refine ⟨?_, ?_, fun _ ha => ha⟩
      · rw [h]
        rfl
      · rw [if_neg hoff]
        rfl
  | nothing h hn =>
    refine ⟨?_, ?_, fun _ ha => ha⟩
    · rw [h]
      rfl
    · rw [h]
      cases l.host.file.listening <;> rfl
  | breaks h hf => exact ⟨⟨_, _, h, hf, rfl⟩, rfl, rfl, fun _ ha => ha⟩

def Fresh (node : Option FileNode) (l : Loop τ Job (Station τ ρ)) : Prop :=
  ∃ file, node = some file ∧ some file.stamp ≠ l.host.file.stamp

structure Met (due : Prop) (view : ρ → σ) (note : σ → LooseText × Value → σ) (setup : Setup τ)
    (node : Option FileNode) (l l' : Loop τ Job (Station τ ρ)) : Prop where
  read : due → Refreshed view note setup node l l'
  left : ¬due → Untouched l l'

theorem Met.onward {due : Prop} (h : Met due view note setup node l m)
    (hf : l'.host.file = m.host.file) (ho : l'.host.owner = m.host.owner)
    (ha : ∀ id, IsActive id m → IsActive id l') : Met due view note setup node l l' where
  read hdue := by
    have hread := h.read hdue
    refine ⟨?_, ?_, fun id hid => ha id (hread.active id hid)⟩
    · rw [hf]
      exact hread.entries
    · rw [ho]
      exact hread.heard
  left hdue := by
    have hleft := h.left hdue
    exact ⟨hf.trans hleft.file, ho.trans hleft.owner, fun id hid => ha id (hleft.active id hid)⟩

theorem endsIn_look (hl : Heeds listen view note)
    (hnode : l.host.world.node? setup.settingsPath = .ok node) :
    EndsIn (Met (Fresh node l) view note setup node l)
      (fun h m => Fresh node l ∧ Spoiled setup.nesting node l h m) (look setup listen l) := by
  have hstamp : l.host.world.stamp? setup.settingsPath = .ok (node.map FileNode.stamp) := by
    rw [World.stamp?, hnode]
    rfl
  rw [look, bind_get]
  dsimp only
  rw [hstamp]
  cases node with
  | none =>
    refine ⟨?_, fun _ => ⟨rfl, rfl, fun _ ha => ha⟩⟩
    rintro ⟨_, h, -⟩
    cases h
  | some file =>
    dsimp only [Option.map_some]
    split
    · rename_i hnew
      have hfresh : Fresh (some file) l := ⟨file, rfl, hnew⟩
      let m : Loop τ Job (Station τ ρ) :=
        { l with host := { l.host with file := { l.host.file with stamp := some file.stamp } } }
      have hread := endsIn_reload (l := m) hl hnode
      refine endsIn_bind (M := (· = m)) rfl fun _ k hk => ?_
      subst hk
      refine endsIn_bind (M := Refreshed view note setup (some file) l) ?_ fun _ k hk => ?_
      · exact hread.imp (fun k hk => ⟨hk.entries, hk.heard, hk.active⟩)
          fun e k hk => ⟨hfresh, hk.cause, hk.entries, hk.owner, hk.active⟩
      · exact ⟨fun _ => hk, fun h => absurd hfresh h⟩
    · rename_i hold
      refine ⟨?_, fun _ => ⟨rfl, rfl, fun _ ha => ha⟩⟩
      rintro ⟨_, h, hnew⟩
      cases h
      exact absurd hnew hold

variable [TimeScale τ]

theorem endsIn_poll (hl : Heeds listen view note)
    (hnode : l.host.world.node? setup.settingsPath = .ok node) (id : Nat) :
    EndsIn (Met (IsActive id l ∧ Fresh node l) view note setup node l)
      (fun h m => (IsActive id l ∧ Fresh node l) ∧ Spoiled setup.nesting node l h m)
      (poll setup listen .settingsFile id l) := by
  have hidle : ¬IsActive id l → Met (IsActive id l ∧ Fresh node l) view note setup node l l :=
    fun hid => ⟨fun hdue => absurd hdue.1 hid, fun _ => ⟨rfl, rfl, fun _ ha => ha⟩⟩
  rw [poll, bind_get]
  cases hw : l.host.watches[id]? with
  | none =>
    refine hidle ?_
    rintro ⟨w, h, -⟩
    rw [hw] at h
    cases h
  | some w =>
    dsimp only
    split
    · rename_i hactive
      have hid : IsActive id l := ⟨w, hw, hactive⟩
      -- after the look, only the watch and the timers change
      let P : Loop τ Job (Station τ ρ) → Prop :=
        Met (IsActive id l ∧ Fresh node l) view note setup node l
      let R : Halt → Loop τ Job (Station τ ρ) → Prop := fun h m =>
        (IsActive id l ∧ Fresh node l) ∧ Spoiled setup.nesting node l h m
      have hask : EndsIn P R (ask setup listen .settingsFile l) := by
        refine endsIn_bind (M := P) ?_ fun s m hm => hm
        refine (endsIn_look hl hnode).imp (fun m hm => ⟨fun hdue => hm.read hdue.2, ?_⟩) ?_
        · exact fun hdue => hm.left fun hfresh => hdue ⟨hid, hfresh⟩
        · exact fun h m hm => ⟨⟨hid, hm.1⟩, hm.2⟩
      have hrearm : Ends P R (do
          if ((← get).host.watches[id]?).any (·.active) then armPoll setup .settingsFile id :
          Act τ ρ Unit) := by
        refine ends_bind ends_get fun k => ends_ite ?_ (ends_pure _)
        refine ends_bind ends_get fun _ => ends_modify fun m hm => ?_
        exact hm.onward rfl rfl fun _ ha => ha
      refine endsIn_bind hask fun seen m hm => ?_
      have hmark : Ends P R (modifyWatch id fun w => { w with last := some seen }) := by
        refine ends_modifyHost fun m hm => hm.onward rfl rfl fun i hi => ?_
        exact hi.modify (some seen) rfl
      have htell : Ends P R (tell listen .settingsFile seen) := ends_pure _
      exact ends_ite (ends_bind hmark fun _ => ends_bind htell fun _ => hrearm) hrearm m hm
    · rename_i hstopped
      refine hidle ?_
      rintro ⟨w', h, hactive⟩
      rw [hw] at h
      cases h
      exact hstopped hactive

/-- Whatever lies at the path of the settings file, reading it gives the object that it holds,
or gives none and one warning, unless a file breaks the reading off. A reload, and a poll of a
watch that is active and meets a new stamp, then keep the entries that were found or else those
that were read last; any other poll leaves all as it was. Where a file breaks them off they
tell nothing and the entries stay; bytes that are no text always do. -/
theorem settings_kept_unless_broken (hl : Heeds listen view note)
    (hnode : l.host.world.node? setup.settingsPath = .ok node) :
    let o : Observed τ (Option Entries) := l.host.world.settings setup.settingsPath setup.nesting
    Sought setup.nesting node o ∧
      EndsIn (Refreshed view note setup node l) (Spoiled setup.nesting node l)
        (reload setup listen l) ∧
      (∀ id, EndsIn (Met (IsActive id l ∧ Fresh node l) view note setup node l)
        (fun h m => (IsActive id l ∧ Fresh node l) ∧ Spoiled setup.nesting node l h m)
        (poll setup listen .settingsFile id l)) ∧
      ((∀ file f, node = some file → ¬file.Breaks setup.nesting f) →
        o.outcome = .ok (node.bind FileNode.object?) ∧
        (∃ l', reload setup listen l = .ok () l') ∧
        ∀ id, ∃ l', poll setup listen .settingsFile id l = .ok () l') ∧
      ∀ content stamp, node = some (.file content stamp) →
        String.fromUTF8? content = none → o = ⟨[], .error .undecodable⟩ := by
  intro o
  have hsought : Sought setup.nesting node o := World.sought hnode
  have hreload := endsIn_reload hl hnode
  have hpoll := fun id => endsIn_poll hl hnode id
  refine ⟨hsought, hreload, hpoll, fun hwhole => ?_, ?_⟩
  · have hunspoiled : ∀ e m, ¬Spoiled setup.nesting node l e m := by
      intro e m hspoiled
      obtain ⟨file, f, hfile, hf, -⟩ := hspoiled.cause
      exact hwhole file f hfile hf
    refine ⟨hsought.outcome_of_whole hwhole, hreload.total hunspoiled, fun id => ?_⟩
    exact (hpoll id).total fun e m hr => hunspoiled e m hr.2
  · rintro content stamp rfl hu
    change World.settings _ _ _ = _
    rw [World.settings, hnode]
    dsimp only
    rw [hu]

/-- A list that is never closed leaves the entries that were read before. -/
theorem settings_kept_at_open_list :
    ∃ (setup : Setup Rat) (l l' : Loop Rat Job (Station Rat Observer)),
      reload setup Observer.listen l = .ok () l' ∧ l.host.file.entries ≠ [] ∧
        l'.host.file.entries = l.host.file.entries := by
  let setup : Setup Rat := { interval := fun _ => 2500, settingsPath := "cfg.json" }
  let l : Loop Rat Job (Station Rat Observer) :=
    { seconds := 0
      host := {
        world := .holding "[1" 3
        file := { entries := [("a", .int 1)], listening := true }
        owner := {} } }
  have hnode : l.host.world.node? setup.settingsPath = .ok (some (.file "[1".toUTF8 3)) := rfl
  have hobject : FileNode.object? (.file "[1".toUTF8 3) = none := by decide +kernel
  have hended : (Session.runThrough (reload setup Observer.listen) l).2 = none := by
    decide +kernel
  have hl' := Session.runThrough_unit hended
  obtain ⟨-, hreload, -⟩ := settings_kept_unless_broken Observer.heeds_listen hnode
  rw [hl'] at hreload
  refine ⟨setup, l, _, hl', List.cons_ne_nil _ _, ?_⟩
  rw [hreload.entries, Option.bind_some, hobject]
  rfl

/-- One byte that begins no character breaks off every reading of a file. -/
theorem undecodable_settings_break :
    ¬∀ (w : World) (path : LooseText) (node : Option FileNode), w.node? path = .ok node →
      ∃ found, (w.settings path none : Observed Rat _).outcome = .ok found := by
  intro h
  let w : World := { found := [("cfg.json", .file ⟨#[0xff]⟩ 3)] }
  have hbroken : (w.settings "cfg.json" none : Observed Rat _).outcome.toOption.isSome = false := by
    decide +kernel
  obtain ⟨found, hfound⟩ := h w "cfg.json" _ rfl
  rw [hfound] at hbroken
  cases hbroken

end Station

end TrafficIndicator
