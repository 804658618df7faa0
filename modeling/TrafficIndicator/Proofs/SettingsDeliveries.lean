import TrafficIndicator.Proofs.SettingsWatch
import TrafficIndicator.Station.Observer
import TrafficIndicator.Time.Scale

/-!
Replaying everything that was told gives, for each key of the last object, an equal of its
value there, and for each key that was told before and has vanished since, its default. A key
is told again only when its value is no equal of the one before.
-/
namespace TrafficIndicator

structure Faithful (defaults told present : List (LooseText × Value)) : Prop where
  given : ∀ key w, (Value.entriesOf told).lookup key = some w →
    (∃ v, present.lookup key = some v ∧ (w = v ∨ w.equal v = true)) ∨
    (present.lookup key = none ∧ w = (defaults.lookup key).getD .null)
  complete : ∀ key v, present.lookup key = some v →
    ∃ w, (Value.entriesOf told).lookup key = some w

variable {defaults told before now : List (LooseText × Value)}

theorem faithful_nil : Faithful defaults [] [] := by
  constructor
  · intro key w hw
    cases hw
  · intro key v hv
    cases hv

/-- Telling the changes keeps the replay in agreement. Where a value is not told again it is
an equal of the one before, which is where equality has to be transitive. -/
theorem faithful_changed (h : Faithful defaults told before) (hb : Keyed before)
    (hn : Keyed now) : Faithful defaults (told ++ changedEntries defaults before now) now := by
  have hreplay : ∀ key, (Value.entriesOf (told ++ changedEntries defaults before now)).lookup key =
      ((changedEntries defaults before now).lookup key).or ((Value.entriesOf told).lookup key) :=
    Value.lookup_entriesOf_append told (keyed_changedEntries hb hn)
  constructor
  · intro key w hw
    rw [hreplay, lookup_changedEntries hb hn] at hw
    cases hnow : now.lookup key with
    | none =>
      refine Or.inr ⟨rfl, ?_⟩
      cases hbefore : before.lookup key with
      | some p =>
        rw [hnow, hbefore] at hw
        exact (Option.some.inj hw).symm
      | none =>
        rw [hnow, hbefore] at hw
        rcases h.given key w hw with ⟨v, hv, -⟩ | ⟨-, hd⟩
        · rw [hbefore] at hv
          cases hv
        · exact hd
    | some v =>
      refine Or.inl ⟨v, rfl, ?_⟩
      cases hbefore : before.lookup key with
      | none =>
        rw [hnow, hbefore] at hw
        exact Or.inl (Option.some.inj hw).symm
      | some p =>
        rw [hnow, hbefore] at hw
        cases he : p.equal v with
        | false =>
          dsimp only at hw
          rw [he, if_neg Bool.false_ne_true] at hw
          exact Or.inl (Option.some.inj hw).symm
        | true =>
          dsimp only at hw
          rw [he, if_pos rfl] at hw
          rcases h.given key w hw with ⟨q, hq, hwq⟩ | ⟨hnone, -⟩
          · rw [hbefore] at hq
            cases hq
            rcases hwq with rfl | hwq
            · exact Or.inr he
            · exact Or.inr (Value.equal_trans hwq he)
          · rw [hbefore] at hnone
            cases hnone
  · intro key v hv
    rw [hreplay, lookup_changedEntries hb hn, hv]
    cases hbefore : before.lookup key with
    | none => exact ⟨v, rfl⟩
    | some p =>
      dsimp only
      cases he : p.equal v with
      | false =>
        rw [if_neg Bool.false_ne_true]
        exact ⟨v, rfl⟩
      | true =>
        rw [if_pos rfl]
        exact h.complete key p hbefore

namespace Station

open Loop

variable {history : List Look}

theorem faithful_heard (hk : ∀ k ∈ history, ∀ entries, k.entries = some entries → Keyed entries) :
    Keyed (Look.present history) ∧
      Faithful defaults (Look.heard defaults history) (Look.present history) := by
  induction history with
  | nil => exact ⟨keyed_nil, faithful_nil⟩
  | cons k earlier ih =>
    obtain ⟨hkeyed, hfaithful⟩ := ih fun j hj => hk j (List.mem_cons_of_mem _ hj)
    rw [Look.heard, Look.told, Look.present_cons]
    cases ho : k.object earlier with
    | none => exact ⟨hkeyed, by simpa using hfaithful⟩
    | some entries =>
      have hentries : k.entries = some entries := by
        rw [Look.object] at ho
        split at ho
        · exact ho
        · cases ho
      have hnow := hk k List.mem_cons_self entries hentries
      exact ⟨hnow, faithful_changed hfaithful hkeyed hnow⟩

theorem heard_of_none (h : Look.lastObject history = none) : Look.heard defaults history = [] := by
  induction history with
  | nil => rfl
  | cons k earlier ih =>
    rw [Look.lastObject, Option.or_eq_none_iff] at h
    rw [Look.heard, ih h.2, Look.told, h.1]
    rfl

section Watching

variable {τ ρ : Type} [TimeScale τ] {setup : Setup τ} {listen : Listener τ ρ}
  {l l' start : Loop τ Job (Station τ ρ)} {id : Nat}

omit [TimeScale τ] in
theorem readable_of_settings {found : Option Entries}
    (h : (l.host.world.settings setup.settingsPath setup.nesting : Observed τ _).outcome =
      .ok found)
    (history : List Look) : Readable setup history l := by
  refine ⟨?_, fun _ => ⟨found, h⟩⟩
  cases hn : l.host.world.node? setup.settingsPath with
  | error f =>
    rw [World.settings, hn] at h
    cases h
  | ok node =>
    rw [World.stamp?, hn]
    exact ⟨_, rfl⟩

omit [TimeScale τ] in
theorem object_of_new {w : World} {found : Option Entries} {s : Stamp}
    (ho : (w.settings setup.settingsPath setup.nesting : Observed τ _).outcome = .ok found)
    (hs : w.stamp? setup.settingsPath = .ok (some s)) (hnew : some s ≠ Look.lastStamp history) :
    (Look.ofWorld setup w).object history = found := by
  rw [Look.object, Look.isNew, Look.stamp_ofWorld hs, if_pos (by simpa using hnew), Look.ofWorld,
    ho]
  rfl

omit [TimeScale τ] in
theorem object_of_nothing {w : World} {found : Option Entries}
    (ho : (w.settings setup.settingsPath setup.nesting : Observed τ _).outcome = .ok found)
    (h : found = none ∨ w.stamp? setup.settingsPath = .ok none ∨
      w.stamp? setup.settingsPath = .ok (Look.lastStamp history)) :
    (Look.ofWorld setup w).object history = none := by
  rw [Look.object]
  split
  · rename_i hnew
    rcases h with rfl | hs | hs
    · rw [Look.ofWorld, ho]
      rfl
    · rw [Look.isNew, Look.stamp_ofWorld hs] at hnew
      cases hnew
    · rw [Look.isNew, Look.stamp_ofWorld hs] at hnew
      simp at hnew
  · rfl

/-- For a listener that records what it is told: at any time, replaying what it was told since
the watch began gives equals of the values of the last object that was read, and the defaults
of those keys that have vanished. A poll tells what is new, what differs from the last object
and what vanished from it, and nothing where there is no new object to read. -/
theorem deliveries_of_watched {seen : ρ → Entries} (hl : Heeds listen seen fun s e => s ++ [e])
    (h : Watched setup listen seen id start history l) :
    ∃ told, seen l.host.owner = seen start.host.owner ++ told ∧
      (∀ key w, (Value.entriesOf told).lookup key = some w →
        (∃ v, (Look.present history).lookup key = some v ∧ (w = v ∨ w.equal v = true)) ∨
        ((Look.present history).lookup key = none ∧
          w = (setup.defaults.lookup key).getD .null)) ∧
      (∀ key v, (Look.present history).lookup key = some v →
        ∃ w, (Value.entriesOf told).lookup key = some w) ∧
      (Look.lastObject history = none → told = []) ∧
      ∀ found, (l.host.world.settings setup.settingsPath setup.nesting :
          Observed τ _).outcome = .ok found →
        ∃ l' new, poll setup listen .settingsFile id l = .ok () l' ∧
          seen l'.host.owner = seen l.host.owner ++ new ∧
          (∀ entries s, found = some entries →
            l.host.world.stamp? setup.settingsPath = .ok (some s) →
            some s ≠ Look.lastStamp history → ∀ key w, (key, w) ∈ new ↔
              ((key, w) ∈ entries ∧
                ∀ p, (Look.present history).lookup key = some p → p.equal w = false) ∨
              ((Look.present history).lookup key ≠ none ∧ entries.lookup key = none ∧
                w = (setup.defaults.lookup key).getD .null)) ∧
          (found = none ∨ l.host.world.stamp? setup.settingsPath = .ok none ∨
              l.host.world.stamp? setup.settingsPath = .ok (Look.lastStamp history) →
            new = [] ∧ l'.host.file.entries = l.host.file.entries) := by
  have hfold : ∀ told s : Entries, told.foldl (fun s e => s ++ [e]) s = s ++ told := by
    intro told s
    rw [List.foldl_append_eq_append, ← List.flatMap_def, List.flatMap_singleton']
  obtain ⟨hf, ha, hheard⟩ := watched_follows hl.notes h
  have hfaithful : Faithful setup.defaults _ _ := (faithful_heard (watched_keyed h)).2
  obtain ⟨hgiven, hcomplete⟩ := hfaithful
  refine ⟨Look.heard setup.defaults history, hheard.trans (hfold _ _), hgiven, hcomplete,
    heard_of_none, ?_⟩
  intro found ho
  obtain ⟨l', hpoll⟩ := poll_ends hl hf (readable_of_settings ho history) ha
  have hp := poll_ok hl.notes hf ha hpoll
  refine ⟨l', _, hpoll, hp.heard.trans (hfold _ _), ?_, ?_⟩
  · rintro entries s rfl hs hnew key w
    rw [Look.told, object_of_new ho hs hnew]
    exact mem_changedEntries
  · intro hnothing
    have hobject := object_of_nothing ho hnothing
    rw [Look.told, hobject, hp.follows.entries, hf.entries, Look.present_cons, hobject]
    exact ⟨rfl, rfl⟩

end Watching

end Station

def World.holding (text : String) (stamp : Stamp) : World where
  found := [("cfg.json", .file text.toUTF8 stamp)]

theorem Except.ok_of_join {α : Type} {r : Except Fault (Option α)} {a : α}
    (h : r.toOption.join = some a) : r = .ok (some a) := by
  cases r with
  | error f => cases h
  | ok o =>
    cases o with
    | none => cases h
    | some b =>
      cases h
      rfl

namespace Observer

open Loop Station

def settings (o : Observer) : Entries :=
  o.seen.filterMap fun
    | .setting key v => some (key, v)
    | _ => none

variable {τ : Type}

theorem listen_setting (l : Loop τ Job (Station τ Observer)) (key : LooseText) (v : Value) :
    listen (.setting key v) l = .ok () { l with host := { l.host with owner := { l.host.owner with
      seen := l.host.owner.seen ++ [.setting key v] } } } := by
  refine bind_ok.mpr ⟨_, _, rfl, get_bind_ok.mpr ?_⟩
  cases l.host.owner.stopAt <;> rfl

theorem heeds_listen : Heeds (listen : Listener τ Observer) settings fun s e => s ++ [e] where
  notes l key v l' h := by
    rw [listen_setting] at h
    cases h
    exact ⟨List.filterMap_append, rfl, rfl⟩
  ends l key v := ⟨_, listen_setting l key v⟩

/-- An observer hears at a poll of the entry that was edited, and of the default of the entry
that was removed. -/
theorem deliveries_after_edit :
    ∃ (setup : Station.Setup Rat) (start l l' : Loop Rat Job (Station Rat Observer)) (id : Nat)
      (history : List Look) (new : Entries),
      Watched setup listen settings id start history l ∧
      poll setup listen .settingsFile id l = .ok () l' ∧
      settings l'.host.owner = settings l.host.owner ++ new ∧
      (∃ w, (.chars "a", w) ∈ new ∧ w.equal (.int 3) = true) ∧ (.chars "b", .int 7) ∈ new ∧
      ∃ w, (Value.entriesOf (settings l'.host.owner)).lookup (.chars "a") = some w := by
  let setup : Station.Setup Rat :=
    { interval := fun _ => 2500, settingsPath := "cfg.json", defaults := [(.chars "b", .int 7)] }
  have hworlds : ∃ first edited : World,
      (first.settings setup.settingsPath setup.nesting :
        Observed Rat _).outcome.toOption.isSome = true ∧
      (edited.stamp? setup.settingsPath).toOption.join.any (fun s =>
        some s ≠ Look.lastStamp [Look.ofWorld setup first]) = true ∧
      ((Look.present [Look.ofWorld setup first]).lookup (.chars "b")).isSome = true ∧
      (edited.settings setup.settingsPath setup.nesting :
        Observed Rat _).outcome.toOption.join.any (fun now =>
          (now.lookup (.chars "b")).isNone && (now.lookup (.chars "a")).any fun w =>
            w.equal (.int 3) && ((Look.present [Look.ofWorld setup first]).lookup
              (.chars "a")).all fun p => !p.equal w) = true :=
    ⟨.holding "\x7b\"a\": 1, \"b\": 2\x7d" 1, .holding "\x7b\"a\": 3\x7d" 2, by decide +kernel⟩
  obtain ⟨first, edited, hfirst, hstamp, hremoved, hedited⟩ := hworlds
  obtain ⟨found, hfound⟩ := Observed.outcome_ok hfirst
  let start : Loop Rat Job (Station Rat Observer) :=
    { seconds := 0, host := { world := first, owner := {} } }
  obtain ⟨id, m, hbegun⟩ := watch_ends (l := start) heeds_listen (readable_of_settings hfound [])
  obtain ⟨s, hs, hnew⟩ := (Option.any_eq_true ..).mp hstamp
  obtain ⟨now, hnow, hchecked⟩ := (Option.any_eq_true ..).mp hedited
  have hread := Except.ok_of_join hnow
  simp only [Bool.and_eq_true, Option.isNone_iff_eq_none, Option.any_eq_true] at hchecked
  obtain ⟨hgone, w, hw, hequal, hbefore⟩ := hchecked
  -- the file is edited between two polls
  have h : Watched setup listen settings id start [Look.ofWorld setup first]
      { m with host.world := edited } := .meanwhile (.begun hbegun) rfl rfl rfl
  obtain ⟨-, -, -, -, -, hpoll⟩ := deliveries_of_watched heeds_listen h
  obtain ⟨l', new, hl', hsettings, hchanges, -⟩ := hpoll _ hread
  have hchanges := hchanges now s rfl (Except.ok_of_join hs) (of_decide_eq_true hnew)
  have ha : (.chars "a", w) ∈ new := by
    refine (hchanges _ _).mpr (.inl ⟨Value.mem_of_lookup hw, fun p hp => ?_⟩)
    rw [hp] at hbefore
    simpa using hbefore
  have hb : (.chars "b", .int 7) ∈ new := by
    refine (hchanges _ _).mpr (.inr ⟨?_, hgone, rfl⟩)
    exact Option.isSome_iff_ne_none.mp hremoved
  obtain ⟨told, htold, -, hcomplete, -⟩ := deliveries_of_watched heeds_listen (h.polled hl')
  have hpresent : (Look.present [Look.ofWorld setup edited, Look.ofWorld setup first]).lookup
      (.chars "a") = some w := by
    rw [Look.present_cons, object_of_new hread (Except.ok_of_join hs) (of_decide_eq_true hnew)]
    exact hw
  refine ⟨setup, start, _, l', id, _, new, h, hl', hsettings, ⟨w, ha, hequal⟩, hb, ?_⟩
  rw [htold]
  exact hcomplete _ w hpresent

end Observer

end TrafficIndicator
