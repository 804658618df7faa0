import Mathlib.Data.List.Induction
import TrafficIndicator.Proofs.PanelOperations
import TrafficIndicator.Proofs.SettingValues
import TrafficIndicator.Proofs.SettingsDeliveries

/-!
An edit that turns a float into an integer or truth value that it equals, or the other way
round, is not told, though the two are not read alike. The settings after a history of edits
are those of the last object alone as long as no such edit stands.
-/
namespace TrafficIndicator

namespace Value

def isFloat : Value → Bool
  | .float _ => true
  | _ => false

/-- Whether one of two values is a float and the other is read as an integer other than 0. -/
def recast (v w : Value) : Bool :=
  (v.isFloat && w.integerOr 0 ≠ 0) || (w.isFloat && v.integerOr 0 ≠ 0)

theorem recast_self (v : Value) : v.recast v = false := by
  cases v with
  | float x => rfl
  | _ => rfl

theorem integerOr_of_isFloat {v : Value} (h : v.isFloat = true) (default : Int) :
    v.integerOr default = default := by
  cases v with
  | float x => rfl
  | _ => cases h

def whole? : Value → Option Int
  | .bool b => some (if b then 1 else 0)
  | .int n => some n
  | _ => none

theorem magnitude_of_whole {v : Value} {n : Int} (h : v.whole? = some n) :
    v.magnitude? = some (.finite n) ∧
      v.integerOr 0 = if Text.withinDigitLimit n then n else 0 := by
  cases v with
  | bool b =>
    cases h
    cases b <;> exact ⟨rfl, by decide +kernel⟩
  | int m =>
    cases h
    exact ⟨rfl, rfl⟩
  | _ => cases h

theorem whole_of_numeric {v : Value} (h : v.isNumeric = true) (hf : v.isFloat = false) :
    ∃ n, v.whole? = some n := by
  cases v with
  | bool | int => exact ⟨_, rfl⟩
  | float => cases hf
  | _ => cases h

/-- Values that are alike are read as the same integer, unless one of them is a float. -/
theorem integerOr_of_alike {v w : Value} (h : alike v w = true) (hv : v.isFloat = false)
    (hw : w.isFloat = false) : v.integerOr 0 = w.integerOr 0 := by
  cases hn : v.isNumeric with
  | true =>
    obtain ⟨m, hvm, hwm⟩ := (alike_numeric hn).mp h
    obtain ⟨a, ha⟩ := whole_of_numeric hn hv
    obtain ⟨b, hb⟩ := whole_of_numeric (isNumeric_of_magnitude hwm) hw
    obtain ⟨hva, hvi⟩ := magnitude_of_whole ha
    obtain ⟨hwb, hwi⟩ := magnitude_of_whole hb
    have hab : a = b := by
      rw [hvm] at hva
      rw [hwm, hva] at hwb
      simpa using hwb
    rw [hvi, hwi, hab]
  | false =>
    rcases shape_of_alike hn h with rfl | ⟨xs, ys, rfl, rfl⟩ | ⟨es, fs, rfl, rfl⟩
    · rfl
    · rfl
    · rfl

theorem not_isText_of_isNumeric {v : Value} (h : v.isNumeric = true) : v.isText = false := by
  cases v <;> first | rfl | cases h

theorem isText_of_alike {v w : Value} (h : alike v w = true) : v.isText = w.isText := by
  cases hn : v.isNumeric with
  | true =>
    obtain ⟨m, -, hwm⟩ := (alike_numeric hn).mp h
    rw [not_isText_of_isNumeric hn, not_isText_of_isNumeric (isNumeric_of_magnitude hwm)]
  | false =>
    rcases shape_of_alike hn h with rfl | ⟨xs, ys, rfl, rfl⟩ | ⟨es, fs, rfl, rfl⟩
    · rfl
    · rfl
    · rfl

end Value

namespace SettingKey

theorem reads_null (key : SettingKey) : key.reads .null = false := by
  cases key <;> rfl

theorem reads_of_not_text {v : Value} (h : v.isText = false) (key : SettingKey) :
    key.reads v = decide (v.integerOr 0 ≠ 0) := by
  cases v with
  | text => cases h
  | _ => cases key <;> rfl

/-- Values that are alike mean the same exactly where none is a recast of the other. -/
theorem reads_iff_of_alike {v w : Value} (h : Value.alike v w = true) (key : SettingKey) :
    key.reads v = key.reads w ↔ v.recast w = false := by
  cases hv : v.isText with
  | true =>
    cases v with
    | text t =>
      rw [Value.alike_text.mp h]
      simp [Value.recast, Value.isFloat]
    | _ => cases hv
  | false =>
    have hw : w.isText = false := Value.isText_of_alike h ▸ hv
    rw [reads_of_not_text hv, reads_of_not_text hw, Value.recast]
    cases hvf : v.isFloat with
    | true =>
      have hvi := Value.integerOr_of_isFloat hvf 0
      simp [hvi]
    | false =>
      cases hwf : w.isFloat with
      | true =>
        have hwi := Value.integerOr_of_isFloat hwf 0
        simp [hwi]
      | false => simp [Value.integerOr_of_alike h hvf hwf]

end SettingKey

namespace Settings

def after (s : Settings) (entries : List (LooseText × Value)) : Settings :=
  entries.foldl (fun s e => s.update e.1 e.2) s

theorem get_after (s : Settings) (entries : List (LooseText × Value)) (key : SettingKey) :
    (s.after entries).get key =
      (((Value.entriesOf entries).lookup (.chars key.name)).map key.reads).getD (s.get key) := by
  induction entries using List.reverseRecOn with
  | nil => rfl
  | append_singleton entries e ih =>
    obtain ⟨t, v⟩ := e
    have hkeyed : Keyed [(t, v)] := List.nodup_singleton _
    rw [Value.lookup_entriesOf_append _ hkeyed, after, List.foldl_append, List.foldl_cons,
      List.foldl_nil, get_update, List.lookup_cons, List.lookup_nil]
    by_cases ht : t = .chars key.name
    · subst ht
      simp
    · rw [if_neg ht, beq_eq_false_iff_ne.mpr (Ne.symm ht)]
      exact ih

end Settings

namespace Station

open Loop

/-- The value of a key with which its present run of equal values began. -/
def Look.standing : List Look → LooseText → Option Value
  | [], _ => none
  | k :: earlier, key =>
    match k.object earlier with
    | none => Look.standing earlier key
    | some entries =>
      match entries.lookup key, (Look.present earlier).lookup key with
      | some v, some p => if p.equal v then Look.standing earlier key else some v
      | found, _ => found

variable {history : List Look} {defaults : Entries}

/-- For a key that is present, the value that was told last is the one that stands. -/
theorem standing_eq (hk : ∀ k ∈ history, ∀ entries, k.entries = some entries → Keyed entries)
    {key : LooseText} {v : Value} (h : (Look.present history).lookup key = some v) :
    (Value.entriesOf (Look.heard defaults history)).lookup key = Look.standing history key := by
  induction history generalizing v with
  | nil => cases h
  | cons k earlier ih =>
    have hk' := fun j hj => hk j (List.mem_cons_of_mem _ hj)
    obtain ⟨hnow, -⟩ := @faithful_heard defaults _ hk
    obtain ⟨hbefore, -⟩ := @faithful_heard defaults _ hk'
    rw [Look.present_cons] at h hnow
    rw [Look.heard, Look.told, Look.standing]
    cases ho : k.object earlier with
    | none =>
      rw [ho] at h
      rw [List.append_nil]
      exact ih hk' h
    | some entries =>
      rw [ho, Option.getD_some] at h hnow
      dsimp only
      rw [Value.lookup_entriesOf_append _ (keyed_changedEntries hbefore hnow),
        lookup_changedEntries hbefore hnow, h]
      cases hp : (Look.present earlier).lookup key with
      | none => rfl
      | some p =>
        dsimp only
        cases he : p.equal v with
        | false => rfl
        | true =>
          rw [if_pos rfl, if_pos rfl]
          exact ih hk' hp

end Station

namespace Panel

open Loop Station

variable {τ : Type} [TimeScale τ]

/-- An indicator takes every setting that it hears to the end, whether it is attached or not. -/
theorem notes_listen (setup : Setup τ) :
    Notes (listen setup) (fun p => p.indicator.settings) fun s e => s.update e.1 e.2 := by
  intro l key v l' h
  have hr := react_ok h
  refine ⟨?_, hr.beside.file, hr.beside.polls⟩
  rcases Indicator.settingChanged_settings (i := l.host.owner.indicator) key v with
    ⟨f, -, hfails⟩ | ⟨o, ho, -, hs⟩
  · have hfaultless := hr.faultless
    rw [Indicator.receive, hfails] at hfaultless
    cases hfaultless
  · rw [hr.state]
    exact hs.trans (congrArg (Option.getD · _) (Settings.update?_of_apply ho))

theorem settings_of_fixed {setup : Setup τ} {entries : Entries} {l l' : Running τ}
    {ids : List Nat} (h : openSettings setup (.fixed entries) l = .ok ids l') :
    l'.host.owner.indicator.settings = l.host.owner.indicator.settings.after entries := by
  obtain ⟨_, m, hm, h⟩ := bind_ok.mp h
  obtain ⟨-, rfl⟩ := pure_ok.mp h
  let view (p : Panel τ) : Settings := p.indicator.settings
  have hn : Noted view (fun s e => s.update e.1 e.2) entries l l' :=
    forM_noted (fun m m' e _ => notes_listen setup m e.1 e.2 m') hm
  exact hn.heard

variable {setup : Setup τ} {start l : Running τ} {id : Nat} {history : List Look}

theorem keyed_settings {o : Options} {entries : Entries} (h : o.settings = .ok entries) :
    Keyed entries := by
  rw [Options.settings] at h
  cases hu : o.unit.required .noUnit with
  | error f => rw [hu] at h; cases h
  | ok unit =>
    rw [hu] at h
    cases h
    exact (by decide : [LooseText.chars SettingKey.enabled.name, .chars SettingKey.autoHide.name,
      .chars SettingKey.unit.name].Nodup)

/-- One field: it is as the last object alone would have it, unless the value that stands is a
recast of the one in the object. -/
theorem get_iff_recast {cli entries : Entries} (hcli : Keyed cli)
    (hkeyed : ∀ k ∈ history, ∀ entries, k.entries = some entries → Keyed entries)
    (hlast : Look.lastObject history = some entries) (key : SettingKey) :
    (((({} : Settings).after cli).after (Look.heard cli history)).get key =
        ((({} : Settings).after cli).after entries).get key) ↔
      ∀ d v, Look.standing history (.chars key.name) = some d →
        entries.lookup (.chars key.name) = some v → d.recast v = false := by
  have hpresent : Look.present history = entries := by rw [Look.present, hlast]; rfl
  obtain ⟨hentries, hgiven, hcomplete⟩ := @faithful_heard cli _ hkeyed
  rw [hpresent] at hentries hgiven hcomplete
  rw [Settings.get_after _ (Look.heard cli history), Settings.get_after _ entries,
    Value.lookup_entriesOf hentries]
  cases hv : entries.lookup (.chars key.name) with
  | none =>
    refine iff_of_true ?_ (fun _ _ _ hn => (Option.some_ne_none _ hn.symm).elim)
    cases hw : (Value.entriesOf (Look.heard cli history)).lookup (.chars key.name) with
    | none => rfl
    | some w =>
      rcases hgiven _ w hw with ⟨v, hv', -⟩ | ⟨-, rfl⟩
      · rw [hv] at hv'
        cases hv'
      · rw [Settings.get_after, Value.lookup_entriesOf hcli]
        cases cli.lookup (.chars key.name) with
        | none =>
          refine (key.reads_null).trans ?_
          cases key <;> rfl
        | some c => rfl
  | some v =>
    obtain ⟨w, hw⟩ := hcomplete _ v hv
    have hstanding : Look.standing history (.chars key.name) = some w :=
      (standing_eq hkeyed (hpresent ▸ hv)).symm.trans hw
    have hreads : key.reads w = key.reads v ↔ w.recast v = false := by
      rcases hgiven _ w hw with ⟨v', hv', hwv⟩ | ⟨hn, -⟩
      · rw [hv] at hv'
        cases hv'
        rcases hwv with rfl | hwv
        · exact iff_of_true rfl w.recast_self
        · exact SettingKey.reads_iff_of_alike (Value.equal_iff.mp hwv).2 key
      · rw [hv] at hn
        cases hn
    rw [hw, hstanding]
    refine hreads.trans ⟨?_, fun h => h w v rfl rfl⟩
    rintro h d v' hd hv'
    cases hd
    cases hv'
    exact h

/-- An indicator is given the values of the command line and then watches a settings file that
falls back on them. After the poll that reads the last object its settings are those that this
object alone would give, exactly if for no key the value that stands is a recast of the one in
the object. -/
theorem settings_eq_iff_no_recast {o : Options} {cli : Entries} (ho : o.settings = .ok cli)
    (hdefaults : setup.station.defaults = cli) {first : Running τ} {ids : List Nat}
    (hfresh : first.host.owner.indicator.settings = {})
    (hcli : openSettings setup (.fixed cli) first = .ok ids start)
    (h : Watched setup.station (listen setup) (fun p => p.indicator.settings) id start history l)
    {entries : Entries} (hlast : Look.lastObject history = some entries) :
    l.host.owner.indicator.settings = (({} : Settings).after cli).after entries ↔
      ∀ (key : SettingKey) (d v : Value), Look.standing history (.chars key.name) = some d →
        entries.lookup (.chars key.name) = some v → d.recast v = false := by
  obtain ⟨-, -, hheard⟩ := watched_follows (notes_listen setup) h
  have hl : l.host.owner.indicator.settings =
      (({} : Settings).after cli).after (Look.heard cli history) := by
    rw [hheard, settings_of_fixed hcli, hfresh, hdefaults]
    rfl
  rw [hl, Settings.get_ext]
  exact forall_congr' fun key => get_iff_recast (keyed_settings ho) (watched_keyed h) hlast key

def disabling : Entries :=
  [(.chars SettingKey.enabled.name, .int 0), (.chars SettingKey.autoHide.name, .int 0),
    (.chars SettingKey.unit.name, .int 0)]

def disablingSetup : Setup Rat where
  station := { interval := fun _ => 1000, settingsPath := "cfg.json", defaults := disabling }
  collaborators := { settings := [.fixed disabling, .file] }

/-- A file of which one entry is edited and another removed: the unit is that of the edit, and
the indicator does not hide any more. -/
theorem settings_eq_after_edit :
    ∃ (setup : Setup Rat) (start l : Running Rat) (id : Nat) (k k' : Look)
      (cli before entries : Entries),
      Watched setup.station (listen setup) (fun p => p.indicator.settings) id start [k, k'] l ∧
      Look.lastObject [k'] = some before ∧ Look.lastObject [k, k'] = some entries ∧
      (before.lookup (.chars SettingKey.autoHide.name)).any (·.equal (.int 1)) = true ∧
      entries.lookup (.chars SettingKey.autoHide.name) = none ∧
      l.host.owner.indicator.settings = (({} : Settings).after cli).after entries := by
  let station := disablingSetup.station
  let opened (first : World) :=
    Session.runThrough (openSettings disablingSetup (.fixed disabling)) (made {} first)
  let run (edited : World) : Panel.Act Rat Unit := do
    let id ← Station.watch station (listen disablingSetup) .settingsFile
    modifyHost fun s => { s with world := edited }
    Station.poll station (listen disablingSetup) .settingsFile id
  have hworlds : ∃ first edited : World, (opened first).2 = none ∧
      (Session.runThrough (run edited) (opened first).1).2 = none ∧
      (Look.lastObject [Look.ofWorld station (opened first).1.host.world]).any (fun before =>
        (before.lookup (.chars SettingKey.autoHide.name)).any (·.equal (.int 1))) = true ∧
      (Look.lastObject [Look.ofWorld station edited,
          Look.ofWorld station (opened first).1.host.world]).any (fun entries =>
        (entries.lookup (.chars SettingKey.autoHide.name)).isNone &&
          SettingKey.all.all fun key =>
            (Look.standing [Look.ofWorld station edited,
                Look.ofWorld station (opened first).1.host.world] (.chars key.name)).all fun d =>
              (entries.lookup (.chars key.name)).all fun v => !d.recast v) = true :=
    ⟨.holding "\x7b\"networktraffic.unittype\": 1, \"networktraffic.autohide\": 1\x7d" 1000,
      .holding "\x7b\"networktraffic.unittype\": 0\x7d" 2000, by decide +kernel⟩
  obtain ⟨first, edited, hopened, hrun, hbefore, hentries⟩ := hworlds
  obtain ⟨before, hbefore, hhides⟩ := (Option.any_eq_true ..).mp hbefore
  obtain ⟨entries, hentries, hkept⟩ := (Option.any_eq_true ..).mp hentries
  obtain ⟨hremoved, hrecast⟩ := (Bool.and_eq_true ..).mp hkept
  obtain ⟨ids, hopened⟩ := Session.runThrough_ok hopened
  obtain ⟨id, m, hbegun, h⟩ := bind_ok.mp (Session.runThrough_unit hrun)
  obtain ⟨_, m', hm', hpolled⟩ := bind_ok.mp h
  have hm' := modify_ok.mp hm'
  have h : Watched station (listen disablingSetup) (fun p => p.indicator.settings) id
      (opened first).1
      [Look.ofWorld station m'.host.world, Look.ofWorld station (opened first).1.host.world] _ :=
    .polled (.meanwhile (.begun hbegun) (by rw [hm']) (by rw [hm']) (by rw [hm'])) hpolled
  have hw : m'.host.world = edited := by rw [hm']
  rw [hw] at h
  have ho : ({ enabled := false } : Options).settings = .ok disabling := rfl
  refine ⟨disablingSetup, _, _, id, _, _, disabling, before, entries, h, hbefore, hentries,
    hhides, Option.isNone_iff_eq_none.mp hremoved, ?_⟩
  rw [settings_eq_iff_no_recast ho rfl rfl hopened h hentries]
  intro key d v hd hv
  have hkey := List.all_eq_true.mp hrecast key (by cases key <;> decide)
  rw [hd, hv] at hkey
  simpa using hkey

/-- An indicator that is shown bits keeps them after an edit that a fresh look at the file
reads as bytes: the integer 1 became the float 1.0, and equals it. -/
theorem recast_edit_is_missed :
    let joined := (Session.runThrough (attach disablingSetup)
      (made {} (.holding "\x7b\"networktraffic.unittype\": 1\x7d" 1000))).1
    let edited := World.holding "\x7b\"networktraffic.unittype\": 1.0\x7d" 2000
    let run := Session.runThrough (advance disablingSetup 2500)
      { joined with host := { joined.host with world := edited } }
    run.2 = none ∧ run.1.host.owner.indicator.settings = { unit := .bits } ∧
      (edited.settings "cfg.json" none : Observed Rat _).outcome.toOption.join.map
        (({} : Settings).after disabling).after = some { unit := .bytes } := by
  intro joined edited run
  have hended : run.2 = none := by decide +kernel
  have hkept : run.1.host.owner.indicator.settings = { unit := .bits } := by decide +kernel
  have hread : (edited.settings "cfg.json" none : Observed Rat _).outcome.toOption.join.map
      (({} : Settings).after disabling).after = some { unit := .bytes } := by decide +kernel
  exact ⟨hended, hkept, hread⟩

end Panel

end TrafficIndicator
