import TrafficIndicator.Proofs.Activity
import TrafficIndicator.Proofs.JsonObjects

/-!
A watch meets the settings file once for each poll. What its memory holds, and what it tells,
depends only on the history of what it met: the stamps, and the entries behind those stamps
that were new. Histories have the latest look first.
-/
namespace TrafficIndicator.Station

open Loop

abbrev Entries := List (LooseText × Value)

/-- What is met at one look: the stamp of the file if there is one, and the entries of the
object that it holds if it holds one. -/
structure Look where
  stamp : Option Stamp
  entries : Option Entries

namespace Look

def ofWorld {τ : Type} (setup : Setup τ) (w : World) : Look where
  stamp := (w.stamp? setup.settingsPath).toOption.join
  entries := (w.settings setup.settingsPath setup.nesting : Observed τ _).outcome.toOption.join

theorem stamp_ofWorld {τ : Type} {setup : Setup τ} {w : World} {s : Option Stamp}
    (h : w.stamp? setup.settingsPath = .ok s) : (ofWorld setup w).stamp = s := by
  rw [ofWorld, h]
  rfl

def lastStamp : List Look → Option Stamp
  | [] => none
  | k :: earlier => k.stamp.or (lastStamp earlier)

def isNew (k : Look) (earlier : List Look) : Bool :=
  k.stamp.isSome && k.stamp ≠ lastStamp earlier

def object (k : Look) (earlier : List Look) : Option Entries :=
  if k.isNew earlier then k.entries else none

def lastObject : List Look → Option Entries
  | [] => none
  | k :: earlier => (k.object earlier).or (lastObject earlier)

/-- The entries of the last object, none if there was none. -/
def present (history : List Look) : Entries := (lastObject history).getD []

def told (defaults : Entries) (k : Look) (earlier : List Look) : Entries :=
  match k.object earlier with
  | none => []
  | some entries => changedEntries defaults (present earlier) entries

def heard (defaults : Entries) : List Look → Entries
  | [] => []
  | k :: earlier => heard defaults earlier ++ k.told defaults earlier

theorem present_cons (k : Look) (earlier : List Look) :
    present (k :: earlier) = (k.object earlier).getD (present earlier) := by
  rw [present, lastObject]
  cases k.object earlier <;> rfl

end Look

variable {τ ρ σ : Type} {setup : Setup τ} {listen : Listener τ ρ} {view : ρ → σ}
  {note : σ → LooseText × Value → σ} {l l' m : Loop τ Job (Station τ ρ)}

structure Noted (view : ρ → σ) (note : σ → LooseText × Value → σ) (told : Entries)
    (l l' : Loop τ Job (Station τ ρ)) : Prop where
  heard : view l'.host.owner = told.foldl note (view l.host.owner)
  file : l'.host.file = l.host.file
  watches : l'.host.watches = l.host.watches

def Notes (listen : Listener τ ρ) (view : ρ → σ) (note : σ → LooseText × Value → σ) : Prop :=
  ∀ l key v l', listen (.setting key v) l = .ok () l' → Noted view note [(key, v)] l l'

structure Heeds (listen : Listener τ ρ) (view : ρ → σ) (note : σ → LooseText × Value → σ) :
    Prop where
  notes : Notes listen view note
  ends : ∀ l key v, ∃ l', listen (.setting key v) l = .ok () l'

theorem Noted.trans {a b : Entries} (h : Noted view note a l m) (k : Noted view note b m l') :
    Noted view note (a ++ b) l l' where
  heard := by rw [k.heard, h.heard, List.foldl_append]
  file := k.file.trans h.file
  watches := k.watches.trans h.watches

theorem noted_nil (l : Loop τ Job (Station τ ρ)) : Noted view note [] l l := ⟨rfl, rfl, rfl⟩

def noticing (l : Loop τ Job (Station τ ρ)) (e : LooseText × Value) : Loop τ Job (Station τ ρ) :=
  { l with host.notices := l.host.notices ++ [.settingRead e.1 e.2] }

theorem tellSetting_of_listening (listen : Listener τ ρ) (hf : l.host.file.listening = true)
    (e : LooseText × Value) :
    tellSetting listen e l = listen (.setting e.1 e.2) (noticing l e) := by
  have hreport : (report [.settingRead e.1 e.2] : Act τ ρ Unit) l = .ok () (noticing l e) := rfl
  have hf' : (noticing l e).host.file.listening = true := hf
  rw [tellSetting, bind_of_ok hreport, bind_get, if_pos hf']

theorem tellSetting_noted (hl : Notes listen view note) (hf : l.host.file.listening = true)
    {e : LooseText × Value} {u : Unit} (h : tellSetting listen e l = .ok u l') :
    Noted view note [e] l l' := by
  rw [tellSetting_of_listening listen hf] at h
  obtain ⟨hheard, hfile, hwatches⟩ := hl _ _ _ _ h
  exact ⟨hheard, hfile, hwatches⟩

theorem forM_noted {f : LooseText × Value → Act τ ρ Unit} {told : Entries}
    (hf : ∀ m m' e, m.host.file = l.host.file → f e m = .ok () m' → Noted view note [e] m m')
    {u : PUnit} (h : told.forM f l = .ok u l') : Noted view note told l l' := by
  induction told generalizing l with
  | nil =>
    cases h
    exact noted_nil _
  | cons e told ih =>
    have h' : (f e >>= fun _ => told.forM f) l = .ok u l' := h
    obtain ⟨_, m, hm, h⟩ := bind_ok.mp h'
    have hn := hf l m e rfl hm
    exact hn.trans (ih (fun m m' e hfile => hf m m' e (hfile.trans hn.file)) h)

theorem forM_ends (hl : Heeds listen view note) (told : Entries)
    (hf : l.host.file.listening = true) :
    ∃ l', told.forM (tellSetting listen) l = .ok ⟨⟩ l' := by
  induction told generalizing l with
  | nil => exact ⟨l, rfl⟩
  | cons e told ih =>
    obtain ⟨m, hm⟩ := hl.ends (noticing l e) e.1 e.2
    rw [← tellSetting_of_listening listen hf] at hm
    obtain ⟨l', hl'⟩ := ih (l := m) (by rw [(tellSetting_noted hl.notes hf hm).file, hf])
    exact ⟨l', bind_ok.mpr ⟨_, m, hm, hl'⟩⟩

theorem observe_ok {α : Type} {o : Observed τ α} {a : α} :
    observe o l = .ok a l' ↔
      o.outcome = .ok a ∧ l' = { l with host := { l.host with
        notices := l.host.notices ++ o.notices } } := by
  rw [observe, bind_ok]
  constructor
  · rintro ⟨_, m, hm, h⟩
    have hm' := modify_ok.mp hm
    cases ho : o.outcome with
    | ok b =>
      rw [ho] at h
      obtain ⟨rfl, rfl⟩ := pure_ok.mp h
      exact ⟨rfl, hm'⟩
    | error f =>
      rw [ho] at h
      exact (throw_ok.mp h).elim
  · rintro ⟨ho, rfl⟩
    refine ⟨(), _, rfl, ?_⟩
    rw [ho]
    rfl

structure Follows (history : List Look) (l : Loop τ Job (Station τ ρ)) : Prop where
  entries : l.host.file.entries = Look.present history
  stamp : l.host.file.stamp = Look.lastStamp history
  listening : l.host.file.listening = true

theorem Follows.of_file {history : List Look} (h : Follows history l)
    (hf : l'.host.file = l.host.file) : Follows history l' :=
  ⟨hf ▸ h.entries, hf ▸ h.stamp, hf ▸ h.listening⟩

structure Looked (view : ρ → σ) (note : σ → LooseText × Value → σ) (setup : Setup τ)
    (earlier : List Look) (l l' : Loop τ Job (Station τ ρ)) : Prop where
  follows : Follows (Look.ofWorld setup l.host.world :: earlier) l'
  heard : view l'.host.owner =
    ((Look.ofWorld setup l.host.world).told setup.defaults earlier).foldl note
      (view l.host.owner)
  watches : l'.host.watches = l.host.watches

theorem reload_ok (hl : Notes listen view note) (hf : l.host.file.listening = true) {u : Unit}
    (h : reload setup listen l = .ok u l') :
    ∃ found, (l.host.world.settings setup.settingsPath setup.nesting : Observed τ _).outcome =
        .ok found ∧
      view l'.host.owner = ((found.map (changedEntries setup.defaults
        l.host.file.entries)).getD []).foldl note (view l.host.owner) ∧
      l'.host.watches = l.host.watches ∧
      l'.host.file = { l.host.file with entries := found.getD l.host.file.entries } := by
  obtain ⟨found, m, hobs, h⟩ := bind_ok.mp (get_bind_ok.mp h)
  obtain ⟨ho, rfl⟩ := observe_ok.mp hobs
  refine ⟨found, ho, ?_⟩
  cases found with
  | none =>
    obtain ⟨-, rfl⟩ := pure_ok.mp h
    exact ⟨rfl, rfl, rfl⟩
  | some entries =>
    obtain ⟨_, k, hk, h⟩ := bind_ok.mp h
    have hk' := modify_ok.mp hk
    subst hk'
    rw [if_pos hf] at h
    have hn := forM_noted (fun m m' e hm => tellSetting_noted hl (hm ▸ hf)) h
    exact ⟨hn.heard, hn.watches, hn.file⟩

theorem reload_ends (hl : Heeds listen view note) (hf : l.host.file.listening = true)
    {found : Option Entries}
    (ho : (l.host.world.settings setup.settingsPath setup.nesting : Observed τ _).outcome =
      .ok found) : ∃ l', reload setup listen l = .ok () l' := by
  have hobs := observe_ok (l := l).mpr ⟨ho, rfl⟩
  cases found with
  | none => exact ⟨_, get_bind_ok.mpr (bind_ok.mpr ⟨_, _, hobs, rfl⟩)⟩
  | some entries =>
    let k : Loop τ Job (Station τ ρ) := { l with
      host.notices := l.host.notices ++
        (l.host.world.settings setup.settingsPath setup.nesting : Observed τ _).notices
      host.file.entries := entries }
    obtain ⟨l', hl'⟩ := forM_ends (l := k) hl
      (changedEntries setup.defaults l.host.file.entries entries) hf
    refine ⟨l', get_bind_ok.mpr (bind_ok.mpr ⟨_, _, hobs, bind_ok.mpr ⟨_, k, rfl, ?_⟩⟩)⟩
    rw [if_pos hf]
    exact hl'

def Readable (setup : Setup τ) (earlier : List Look) (l : Loop τ Job (Station τ ρ)) : Prop :=
  (∃ s, l.host.world.stamp? setup.settingsPath = .ok s) ∧
    ((Look.ofWorld setup l.host.world).isNew earlier = true →
      ∃ found,
        (l.host.world.settings setup.settingsPath setup.nesting : Observed τ _).outcome = .ok found)

theorem look_eq {earlier : List Look} (hf : Follows earlier l) {s : Option Stamp}
    (hs : l.host.world.stamp? setup.settingsPath = .ok s) :
    look setup listen l =
      if (Look.ofWorld setup l.host.world).isNew earlier then
        (do
          reload setup listen
          return (← get).host.file.stamp : Act τ ρ (Option Stamp))
          { l with host.file.stamp := s }
      else .ok l.host.file.stamp l := by
  have hk : (Look.ofWorld setup l.host.world).stamp = s := Look.stamp_ofWorld hs
  rw [look, bind_get]
  dsimp only
  rw [hs, Look.isNew, hk, ← hf.stamp]
  cases s with
  | none => rfl
  | some stamp =>
    dsimp only
    by_cases hnew : some stamp ≠ l.host.file.stamp
    · rw [if_pos hnew, if_pos (by simpa using hnew)]
      rfl
    · rw [if_neg hnew, if_neg (by simpa using hnew)]
      rfl

theorem look_stamp {s : Option Stamp} (h : look setup listen l = .ok s l') :
    ∃ s, l.host.world.stamp? setup.settingsPath = .ok s := by
  rw [look, get_bind_ok] at h
  cases hs : l.host.world.stamp? setup.settingsPath with
  | error f =>
    dsimp only at h
    rw [hs] at h
    exact (throw_ok.mp h).elim
  | ok s => exact ⟨s, rfl⟩

theorem look_ok (hl : Notes listen view note) {earlier : List Look} (hf : Follows earlier l)
    {s : Option Stamp} (h : look setup listen l = .ok s l') :
    Looked view note setup earlier l l' := by
  obtain ⟨stamp, hs⟩ := look_stamp h
  have hk : (Look.ofWorld setup l.host.world).stamp = stamp := Look.stamp_ofWorld hs
  rw [look_eq hf hs] at h
  cases hnew : (Look.ofWorld setup l.host.world).isNew earlier with
  | false =>
    rw [hnew] at h
    cases h
    have hobject : (Look.ofWorld setup l.host.world).object earlier = none := by
      rw [Look.object, hnew]
      rfl
    have hlast : stamp = none ∨ stamp = Look.lastStamp earlier := by
      rw [Look.isNew, hk] at hnew
      cases stamp with
      | none => exact Or.inl rfl
      | some stamp => exact Or.inr (by simpa using hnew)
    refine ⟨⟨?_, ?_, hf.listening⟩, ?_, rfl⟩
    · rw [Look.present_cons, hobject]
      exact hf.entries
    · rw [Look.lastStamp, hk, hf.stamp]
      rcases hlast with rfl | rfl
      · rfl
      · cases Look.lastStamp earlier <;> rfl
    · rw [Look.told, hobject]
      rfl
  | true =>
    rw [hnew, if_pos rfl] at h
    obtain ⟨_, m, hm, h⟩ := bind_ok.mp h
    rw [get_bind_ok] at h
    obtain ⟨-, rfl⟩ := pure_ok.mp h
    obtain ⟨found, ho, hheard, hwatches, hfile⟩ := reload_ok hl (by exact hf.listening) hm
    have hobject : (Look.ofWorld setup l.host.world).object earlier = found := by
      rw [Look.object, hnew, if_pos rfl, Look.ofWorld, ho]
      rfl
    refine ⟨⟨?_, ?_, ?_⟩, ?_, hwatches⟩
    · rw [hfile, Look.present_cons, hobject, ← hf.entries]
    · rw [Look.isNew, hk] at hnew
      cases stamp with
      | none => cases hnew
      | some stamp =>
        rw [hfile, Look.lastStamp, hk]
        rfl
    · rw [hfile]
      exact hf.listening
    · rw [hheard, Look.told, hobject, ← hf.entries]
      cases found <;> rfl

theorem look_ends (hl : Heeds listen view note) {earlier : List Look} (hf : Follows earlier l)
    (hr : Readable setup earlier l) : ∃ s l', look setup listen l = .ok s l' := by
  obtain ⟨⟨s, hs⟩, hread⟩ := hr
  rw [look_eq hf hs]
  split
  · obtain ⟨found, ho⟩ := hread ‹_›
    obtain ⟨l', hl'⟩ := reload_ends (l := { l with host.file.stamp := s }) hl hf.listening ho
    exact ⟨_, l', bind_ok.mpr ⟨_, l', hl', get_bind_ok.mpr rfl⟩⟩
  · exact ⟨_, _, rfl⟩

theorem look_readable {earlier : List Look} (hf : Follows earlier l) {s : Option Stamp}
    (h : look setup listen l = .ok s l') : Readable setup earlier l := by
  obtain ⟨stamp, hs⟩ := look_stamp h
  refine ⟨⟨stamp, hs⟩, fun hnew => ?_⟩
  rw [look_eq hf hs, if_pos hnew] at h
  obtain ⟨_, _, hreload, -⟩ := bind_ok.mp h
  obtain ⟨found, _, hobs, -⟩ := bind_ok.mp (get_bind_ok.mp hreload)
  exact ⟨found, (observe_ok.mp hobs).1⟩

section Polling

variable [TimeScale τ]

theorem armPoll_ok (setup : Setup τ) (feed : Feed) (id : Nat) (l : Loop τ Job (Station τ ρ)) :
    ∃ l', armPoll setup feed id l = .ok () l' ∧ l'.host.owner = l.host.owner ∧
      l'.host.file = l.host.file ∧ l'.host.watches = l.host.watches :=
  ⟨_, get_bind_ok.mpr (modify_ok.mpr rfl), rfl, rfl, rfl⟩

def IsActive (id : Nat) (l : Loop τ Job (Station τ ρ)) : Prop :=
  ∃ w, l.host.watches[id]? = some w ∧ w.active = true

omit [TimeScale τ] in
theorem IsActive.of_watches {id : Nat} (h : IsActive id l)
    (hw : l'.host.watches = l.host.watches) : IsActive id l' := by
  rwa [IsActive, hw]

omit [TimeScale τ] in
theorem IsActive.modify {id other : Nat} (h : IsActive id l) (last : Option Sighting)
    (hw : l'.host.watches = l.host.watches.modify other fun w => { w with last := last }) :
    IsActive id l' := by
  obtain ⟨w, hwatch, hactive⟩ := h
  rw [IsActive, hw, List.getElem?_modify, hwatch]
  refine ⟨_, rfl, ?_⟩
  split
  · exact hactive
  · exact hactive

theorem rearm_ok (setup : Setup τ) {id : Nat} (ha : IsActive id l) :
    ∃ l', (do
        if ((← get).host.watches[id]?).any (·.active) then armPoll setup .settingsFile id :
        Act τ ρ Unit) l = .ok () l' ∧
      l'.host.owner = l.host.owner ∧ l'.host.file = l.host.file ∧
      l'.host.watches = l.host.watches := by
  obtain ⟨w, hw, hactive⟩ := ha
  obtain ⟨l', hl', h⟩ := armPoll_ok setup .settingsFile id l
  refine ⟨l', get_bind_ok.mpr ?_, h⟩
  rw [hw, Option.any_some, hactive, if_pos rfl]
  exact hl'

structure Polled (view : ρ → σ) (note : σ → LooseText × Value → σ) (setup : Setup τ) (id : Nat)
    (earlier : List Look) (l l' : Loop τ Job (Station τ ρ)) : Prop where
  follows : Follows (Look.ofWorld setup l.host.world :: earlier) l'
  heard : view l'.host.owner =
    ((Look.ofWorld setup l.host.world).told setup.defaults earlier).foldl note
      (view l.host.owner)
  active : IsActive id l'

theorem poll_ok (hl : Notes listen view note) {earlier : List Look} (hf : Follows earlier l)
    {id : Nat} (ha : IsActive id l) {u : Unit}
    (h : poll setup listen .settingsFile id l = .ok u l') :
    Polled view note setup id earlier l l' := by
  obtain ⟨w, hw, hactive⟩ := ha
  rw [poll, get_bind_ok, hw] at h
  dsimp only at h
  rw [if_pos hactive] at h
  obtain ⟨seen, m, hask, h⟩ := bind_ok.mp h
  obtain ⟨s, _, hm, hs⟩ := bind_ok.mp hask
  obtain ⟨rfl, rfl⟩ := pure_ok.mp hs
  have hlooked := look_ok hl hf hm
  have hma : IsActive id m := IsActive.of_watches ⟨w, hw, hactive⟩ hlooked.watches
  by_cases hlast : some (Sighting.stamp s) ≠ w.last
  · rw [if_pos hlast] at h
    obtain ⟨_, _, hmark, h⟩ := bind_ok.mp h
    obtain ⟨_, k, htell, hrest⟩ := bind_ok.mp h
    obtain ⟨-, rfl⟩ := pure_ok.mp htell
    have hk := modify_ok.mp hmark
    have hka : IsActive id k := hma.modify (some (.stamp s)) (by rw [hk])
    obtain ⟨k', hend, howner, hfile, hwatches⟩ := rearm_ok setup hka
    rw [hend] at hrest
    cases hrest
    refine ⟨hlooked.follows.of_file ?_, ?_, hka.of_watches hwatches⟩
    · rw [hfile, hk]
    · rw [howner, hk]
      exact hlooked.heard
  · rw [if_neg hlast] at h
    obtain ⟨k', hend, howner, hfile, hwatches⟩ := rearm_ok setup hma
    rw [hend] at h
    cases h
    refine ⟨hlooked.follows.of_file hfile, ?_, hma.of_watches hwatches⟩
    rw [howner]
    exact hlooked.heard

theorem poll_ends (hl : Heeds listen view note) {earlier : List Look} (hf : Follows earlier l)
    (hr : Readable setup earlier l) {id : Nat} (ha : IsActive id l) :
    ∃ l', poll setup listen .settingsFile id l = .ok () l' := by
  obtain ⟨w, hw, hactive⟩ := ha
  obtain ⟨s, m, hm⟩ := look_ends hl hf hr
  have hlooked := look_ok hl.notes hf hm
  have hask : ask setup listen .settingsFile l = .ok (.stamp s) m := bind_ok.mpr ⟨_, _, hm, rfl⟩
  have hma : IsActive id m := IsActive.of_watches ⟨w, hw, hactive⟩ hlooked.watches
  rw [poll, bind_get, hw]
  dsimp only
  rw [if_pos hactive, bind_of_ok hask]
  by_cases hlast : some (Sighting.stamp s) ≠ w.last
  · let k : Loop τ Job (Station τ ρ) := { m with host := { m.host with
      watches := m.host.watches.modify id fun w => { w with last := some (.stamp s) } } }
    have hka : IsActive id k := hma.modify (some (.stamp s)) rfl
    obtain ⟨l', hend, -⟩ := rearm_ok setup hka
    rw [if_pos hlast]
    exact ⟨l', bind_ok.mpr ⟨_, k, rfl, bind_ok.mpr ⟨_, k, rfl, hend⟩⟩⟩
  · obtain ⟨l', hend, -⟩ := rearm_ok setup hma
    rw [if_neg hlast]
    exact ⟨l', hend⟩

/-- A poll of an active watch that came to its end could read what it had to read. -/
theorem poll_readable {earlier : List Look} (hf : Follows earlier l) {id : Nat}
    (ha : IsActive id l) {u : Unit} (h : poll setup listen .settingsFile id l = .ok u l') :
    Readable setup earlier l := by
  obtain ⟨w, hw, hactive⟩ := ha
  rw [poll, get_bind_ok, hw] at h
  dsimp only at h
  rw [if_pos hactive] at h
  obtain ⟨seen, m, hask, -⟩ := bind_ok.mp h
  obtain ⟨s, k, hlook, -⟩ := bind_ok.mp hask
  exact look_readable hf hlook

def begun (l : Loop τ Job (Station τ ρ)) : Loop τ Job (Station τ ρ) :=
  { l with host := { l.host with
    file := { listening := true }
    watches := l.host.watches ++ [{ feed := .settingsFile }] } }

theorem watch_eq (l : Loop τ Job (Station τ ρ)) : watch setup listen .settingsFile l = (do
    let s ← look setup listen
    modifyWatch l.host.watches.length fun w => { w with last := some (.stamp s) }
    armPoll setup .settingsFile l.host.watches.length
    return l.host.watches.length : Act τ ρ Nat) (begun l) := by
  have hfile : (modifyFile fun _ => { listening := true } : Act τ ρ Unit) l =
      .ok () { l with host.file := { listening := true } } := rfl
  have hopened : (modifyHost fun s => { s with
      watches := s.watches ++ [{ feed := .settingsFile }] } : Act τ ρ Unit)
      { l with host.file := { listening := true } } = .ok () (begun l) := rfl
  rw [watch, bind_get, if_pos rfl]
  refine (bind_of_ok hfile).trans ((bind_of_ok hopened).trans ?_)
  rw [ask, bind_assoc]
  rfl

omit [TimeScale τ] in
theorem isActive_begun (l : Loop τ Job (Station τ ρ)) : IsActive l.host.watches.length (begun l) :=
  ⟨{ feed := .settingsFile }, List.getElem?_concat_length, rfl⟩

omit [TimeScale τ] in
theorem follows_begun (l : Loop τ Job (Station τ ρ)) : Follows [] (begun l) := ⟨rfl, rfl, rfl⟩

theorem watch_ok (hl : Notes listen view note) {id : Nat}
    (h : watch setup listen .settingsFile l = .ok id l') : Polled view note setup id [] l l' := by
  rw [watch_eq] at h
  obtain ⟨s, k, hk, h⟩ := bind_ok.mp h
  obtain ⟨_, k', hmark, h⟩ := bind_ok.mp h
  obtain ⟨_, m, harm, h⟩ := bind_ok.mp h
  obtain ⟨rfl, rfl⟩ := pure_ok.mp h
  have hk' := modify_ok.mp hmark
  have hlooked := look_ok hl (follows_begun l) hk
  have hka : IsActive l.host.watches.length k' :=
    ((isActive_begun l).of_watches hlooked.watches).modify (some (.stamp s)) (by rw [hk'])
  obtain ⟨_, hl', howner, hfile, hwatches⟩ :=
    armPoll_ok setup .settingsFile l.host.watches.length k'
  rw [hl'] at harm
  cases harm
  refine ⟨hlooked.follows.of_file ?_, ?_, hka.of_watches hwatches⟩
  · rw [hfile, hk']
  · rw [howner, hk']
    exact hlooked.heard

theorem watch_ends (hl : Heeds listen view note) (hr : Readable setup [] l) :
    ∃ id l', watch setup listen .settingsFile l = .ok id l' := by
  obtain ⟨s, k, hk⟩ := look_ends hl (follows_begun l) hr
  rw [watch_eq, bind_of_ok hk]
  exact ⟨_, _, rfl⟩

theorem watch_readable {id : Nat} (h : watch setup listen .settingsFile l = .ok id l') :
    Readable setup [] l := by
  rw [watch_eq] at h
  obtain ⟨s, k, hk, -⟩ := bind_ok.mp h
  have hr : Readable setup [] (begun l) := look_readable (follows_begun l) hk
  exact hr

/-- The states of a watch that began in `start`, each with what was met so far. Between two
polls anything may happen that leaves the watch, its memory and what was heard as they are. -/
inductive Watched (setup : Setup τ) (listen : Listener τ ρ) (view : ρ → σ) (id : Nat)
    (start : Loop τ Job (Station τ ρ)) : List Look → Loop τ Job (Station τ ρ) → Prop where
  | begun {l : Loop τ Job (Station τ ρ)}
      (h : watch setup listen .settingsFile start = .ok id l) :
      Watched setup listen view id start [Look.ofWorld setup start.host.world] l
  | polled {history : List Look} {l l' : Loop τ Job (Station τ ρ)}
      (h : Watched setup listen view id start history l)
      (hp : poll setup listen .settingsFile id l = .ok () l') :
      Watched setup listen view id start
        (Look.ofWorld setup l.host.world :: history) l'
  | meanwhile {history : List Look} {l l' : Loop τ Job (Station τ ρ)}
      (h : Watched setup listen view id start history l)
      (hv : view l'.host.owner = view l.host.owner) (hf : l'.host.file = l.host.file)
      (hw : l'.host.watches[id]? = l.host.watches[id]?) :
      Watched setup listen view id start history l'

variable {id : Nat} {start : Loop τ Job (Station τ ρ)} {history : List Look}

/-- The memory follows what was met, and the listener heard what that makes the watch tell. -/
theorem watched_follows (hl : Notes listen view note)
    (h : Watched setup listen view id start history l) :
    Follows history l ∧ IsActive id l ∧
      view l.host.owner =
        (Look.heard setup.defaults history).foldl note (view start.host.owner) := by
  induction h with
  | begun h =>
    have hp := watch_ok hl h
    exact ⟨hp.follows, hp.active, hp.heard⟩
  | polled _ hp ih =>
    obtain ⟨hf, ha, hheard⟩ := ih
    have hpolled := poll_ok hl hf ha hp
    refine ⟨hpolled.follows, hpolled.active, ?_⟩
    rw [hpolled.heard, hheard, Look.heard, List.foldl_append]
  | meanwhile _ hv hf hw ih =>
    obtain ⟨hfollows, ha, hheard⟩ := ih
    refine ⟨hfollows.of_file hf, ?_, hv.trans hheard⟩
    rwa [IsActive, hw]

omit [TimeScale τ] in
theorem keyed_ofWorld {w : World} {entries : Entries}
    (h : (Look.ofWorld setup w).entries = some entries) : Keyed entries := by
  rw [Look.ofWorld] at h
  dsimp only at h
  cases ho : (w.settings setup.settingsPath setup.nesting : Observed τ _).outcome with
  | error f => rw [ho] at h; cases h
  | ok found =>
    rw [ho] at h
    have hfound : (w.settings setup.settingsPath setup.nesting : Observed τ _).outcome =
        .ok (some entries) := by
      rw [ho]
      exact congrArg _ h
    exact World.keyed_settings hfound

theorem watched_keyed (h : Watched setup listen view id start history l) :
    ∀ k ∈ history, ∀ entries, k.entries = some entries → Keyed entries := by
  induction h with
  | begun h =>
    intro k hk entries he
    rw [List.mem_singleton.mp hk] at he
    exact keyed_ofWorld he
  | polled _ hp ih =>
    intro k hk entries he
    rcases List.mem_cons.mp hk with rfl | hk
    · exact keyed_ofWorld he
    · exact ih k hk entries he
  | meanwhile _ hv hf hw ih => exact ih

end Polling

end TrafficIndicator.Station
