import TrafficIndicator.Proofs.SignalHistory

/-!
The interfaces are looked at in the order in which they are listed. The first one that is up
settles the answer, and the first one whose state is no text breaks off the scan, whichever comes
first. So every order gives the same answer unless some state is no text. A poll that is broken
off arms no other.
-/
namespace TrafficIndicator

namespace World

variable {τ : Type} {entries : List (LooseText × FileNode)} {e : LooseText × FileNode}

def ReportsUp (e : LooseText × FileNode) : Prop :=
  e.1 ≠ "lo" ∧ ∃ bytes text, interfaceState e.2 = some bytes ∧
    String.fromUTF8? bytes = some text ∧ Text.trim text.toList = "up".toList

def Garbled (e : LooseText × FileNode) : Prop :=
  e.1 ≠ "lo" ∧ ∃ bytes, interfaceState e.2 = some bytes ∧ String.fromUTF8? bytes = none

def GarbledFirst (entries : List (LooseText × FileNode)) : Prop :=
  ∃ before e after, entries = before ++ e :: after ∧ Garbled e ∧ ∀ d ∈ before, ¬ReportsUp d

def scan (entries : List (LooseText × FileNode)) : Except Fault Bool :=
  anyUp (entries.map fun (name, node) => (name, interfaceState node))

theorem scan_cons_of_up (h : ReportsUp e) : scan (e :: entries) = .ok true := by
  obtain ⟨hlo, bytes, text, hstate, htext, hup⟩ := h
  simp [scan, anyUp.eq_def, hlo, hstate, htext, hup]

theorem scan_cons_of_garbled (h : Garbled e) : scan (e :: entries) = .error .undecodable := by
  obtain ⟨hlo, bytes, hstate, hnone⟩ := h
  simp [scan, anyUp.eq_def, hlo, hstate, hnone]

theorem scan_cons_of_other (hup : ¬ReportsUp e) (hg : ¬Garbled e) :
    scan (e :: entries) = scan entries := by
  obtain ⟨name, node⟩ := e
  rw [scan, List.map_cons, anyUp.eq_def]
  dsimp only
  by_cases hlo : name = "lo"
  · rw [if_pos hlo, scan]
  rw [if_neg hlo]
  cases hstate : interfaceState node with
  | none => rfl
  | some bytes =>
    dsimp only
    cases htext : String.fromUTF8? bytes with
    | none => exact absurd ⟨hlo, bytes, hstate, htext⟩ hg
    | some text =>
      dsimp only
      rw [if_neg fun h => hup ⟨hlo, bytes, text, hstate, htext, h⟩, scan]

theorem scan_of_garbledFirst (h : GarbledFirst entries) : scan entries = .error .undecodable := by
  obtain ⟨before, e, after, rfl, hg, hbefore⟩ := h
  induction before with
  | nil => exact scan_cons_of_garbled hg
  | cons d before ih =>
    obtain ⟨hd, hrest⟩ := List.forall_mem_cons.mp hbefore
    by_cases hgd : Garbled d
    · exact scan_cons_of_garbled hgd
    · rw [List.cons_append, scan_cons_of_other hd hgd]
      exact ih hrest

def Tells (outcome : Except Fault Bool) (entries : List (LooseText × FileNode)) : Prop :=
  ∃ b, outcome = .ok b ∧ (b = true ↔ ∃ e ∈ entries, ReportsUp e)

theorem tells_of_not_garbledFirst (h : ¬GarbledFirst entries) : Tells (scan entries) entries := by
  induction entries with
  | nil => exact ⟨false, rfl, by simp⟩
  | cons d entries ih =>
    by_cases hup : ReportsUp d
    · exact ⟨true, scan_cons_of_up hup, iff_of_true rfl ⟨d, List.mem_cons_self, hup⟩⟩
    have hg : ¬Garbled d := fun hg => h ⟨[], d, entries, rfl, hg, nofun⟩
    have hrest : ¬GarbledFirst entries := by
      rintro ⟨before, e, after, rfl, he, hbefore⟩
      exact h ⟨d :: before, e, after, rfl, he, List.forall_mem_cons.mpr ⟨hup, hbefore⟩⟩
    obtain ⟨b, hb, htrue⟩ := ih hrest
    refine ⟨b, (scan_cons_of_other hup hg).trans hb, htrue.trans ?_⟩
    simp [hup]

/-- Every order of a listing is answered, and answered alike, unless the state of some interface
is no text. -/
theorem tells_every_order_iff :
    (∀ order : List (LooseText × FileNode), order.Perm entries → Tells (scan order) entries) ↔
      ∀ e ∈ entries, ¬Garbled e := by
  constructor
  · intro h e he hg
    obtain ⟨before, after, rfl⟩ := List.append_of_mem he
    -- listed before all others, it breaks off the scan
    obtain ⟨b, hb, -⟩ := h (e :: (before ++ after)) List.perm_middle.symm
    rw [scan_cons_of_garbled hg] at hb
    cases hb
  · intro h order hperm
    have hclear : ¬GarbledFirst order := by
      rintro ⟨before, e, after, rfl, hg, -⟩
      exact h e (hperm.mem_iff.mp (by simp)) hg
    obtain ⟨b, hb, htrue⟩ := tells_of_not_garbledFirst hclear
    refine ⟨b, hb, htrue.trans ?_⟩
    simp only [hperm.mem_iff]

/-- The world in which a directory is listed in some order. -/
def relisted (w : World) (path : LooseText) (order : List (LooseText × FileNode))
    (stamp : Stamp) : World :=
  { w with found := (path, .directory order stamp) :: w.found }

theorem node?_relisted {w : World} {path : LooseText} {node : Option FileNode}
    (h : w.node? path = .ok node) (order : List (LooseText × FileNode)) (stamp : Stamp) :
    (w.relisted path order stamp).node? path = .ok (some (.directory order stamp)) := by
  rw [node?] at h ⊢
  cases hpath : pathFault? path with
  | some f =>
    rw [hpath] at h
    cases h
  | none =>
    dsimp only
    rw [relisted, List.lookup_cons_self, Option.some_or]

theorem outcome_connected {w : World} {path : String} {stamp : Stamp}
    (h : w.node? path = .ok (some (.directory entries stamp))) :
    (w.connected path : Observed τ Bool).outcome = scan entries := by
  rw [connected, h]
  rfl

theorem connected_of_error {w : World} {path : String} {f : Fault}
    (h : (w.connected path : Observed τ Bool).outcome = .error f) :
    (w.connected path : Observed τ Bool) = ⟨[], .error f⟩ := by
  rw [connected] at h ⊢
  split at h
  · cases h
    rfl
  · cases h
  · cases h
  · exact congrArg (Observed.mk []) h

end World

namespace Station

open Loop World
open Ledger (awaited)

variable {τ ρ : Type}

structure Scanned (setup : Setup τ) (world : World) : Prop where
  /-- No file can be looked for at the path. -/
  faulty : ∀ f, world.node? setup.interfacesPath = .error f →
    Signal.connection.state setup world = .error f
  unlisted : ∀ node, world.node? setup.interfacesPath = .ok node →
    (∀ entries stamp, node ≠ some (.directory entries stamp)) →
    Signal.connection.state setup world = .ok true
  garbled : ∀ entries stamp,
    world.node? setup.interfacesPath = .ok (some (.directory entries stamp)) →
    GarbledFirst entries → Signal.connection.state setup world = .error .undecodable
  answered : ∀ entries stamp,
    world.node? setup.interfacesPath = .ok (some (.directory entries stamp)) →
    ¬GarbledFirst entries → Tells (Signal.connection.state setup world) entries
  orders : ∀ entries stamp,
    world.node? setup.interfacesPath = .ok (some (.directory entries stamp)) →
    ((∀ order : List (LooseText × FileNode), order.Perm entries →
        Tells (Signal.connection.state setup (world.relisted setup.interfacesPath order stamp))
          entries) ↔
      ∀ e ∈ entries, ¬Garbled e)

theorem scanned (setup : Setup τ) (world : World) : Scanned setup world where
  faulty f h := by
    rw [Signal.state, connected, h]
  unlisted node h hnode := by
    rw [Signal.state, connected, h]
    match node with
    | none | some (.file ..) => rfl
    | some (.directory entries stamp) => exact absurd rfl (hnode entries stamp)
  garbled entries stamp h hg := by
    rw [Signal.state, outcome_connected h]
    exact scan_of_garbledFirst hg
  answered entries stamp h hg := by
    rw [Signal.state, outcome_connected h]
    exact tells_of_not_garbledFirst hg
  orders entries stamp h := by
    rw [← tells_every_order_iff]
    refine forall_congr' fun order => ?_
    rw [Signal.state, outcome_connected (node?_relisted h order stamp)]

namespace Subscriber

variable [TimeScale τ]

/-- A watch of the connection that is about to be polled. -/
structure Due (c : Subscriber ρ) (listen : Listener τ ρ) (w : Watch)
    (l : Loop τ Job (Station τ ρ)) : Prop where
  signal : c.signal = .connection
  stands : c.Stands w none l
  active : w.active = true
  heeds : c.Heeds listen
  fit : c.fit l.host.owner

/-- The poll tells a value that is not the one seen last, and the next poll waits unless the
listener ended the watch; or it is broken off, and no poll waits. -/
structure Polled (c : Subscriber ρ) (setup : Setup τ) (listen : Listener τ ρ) (w : Watch)
    (l : Loop τ Job (Station τ ρ)) : Prop where
  answered : ∀ b, Signal.connection.state setup l.host.world = .ok b →
    ∃ l' active, poll setup listen c.feed c.id l = .ok () l' ∧
      c.heard l'.host.owner =
        c.heard l.host.owner ++ (if some (.flag b) ≠ w.last then [b] else []) ∧
      c.Saw b active l'
  broken : ∀ f, Signal.connection.state setup l.host.world = .error f →
    poll setup listen c.feed c.id l = .error (.fault f) l ∧ awaited c.feed l.queue = []

variable {c : Subscriber ρ} {listen : Listener τ ρ} {w : Watch} {l : Loop τ Job (Station τ ρ)}
  {setup : Setup τ}

omit [TimeScale τ] in
theorem ask_connection_error {f : Fault} (listen : Listener τ ρ)
    (h : Signal.connection.state setup l.host.world = .error f) :
    ask setup listen .interfaces l = .error (.fault f) l := by
  have hobserved : (observe (l.host.world.connected setup.interfacesPath) : Act τ ρ Bool) l =
      .error (.fault f) l := by
    rw [connected_of_error h]
    change EStateM.Result.error (Halt.fault f) { l with host := { l.host with
      notices := l.host.notices ++ [] } } = _
    rw [List.append_nil]
  rw [ask, bind_get]
  exact bind_of_error hobserved

theorem Due.polled (h : c.Due listen w l) (setup : Setup τ) : c.Polled setup listen w l where
  answered b hb := by
    rw [← h.signal] at hb
    obtain ⟨l', active, hpoll, -, hheard, hsaw⟩ := h.stands.polled h.active h.heeds h.fit hb
    exact ⟨l', active, hpoll, hheard, hsaw⟩
  broken f hf := by
    have hfeed : c.feed = .interfaces := by rw [feed, h.signal, Signal.feed]
    refine ⟨?_, h.stands.awaited⟩
    rw [poll, bind_get, h.stands.watch]
    dsimp only
    rw [if_pos h.active, hfeed]
    exact bind_of_error (ask_connection_error listen hf)

end Subscriber

/-- Reading the connection is answered in every order of the interfaces alike, and a poll of it
comes to its end, unless the state of some interface is no text. An order in which such an
interface comes before all that are up breaks off the reading, and the poll with it. -/
theorem connection_unless_garbled [TimeScale τ] (setup : Setup τ) :
    (∀ world, Scanned setup world) ∧
      ∀ (c : Subscriber ρ) (listen : Listener τ ρ) (w : Watch) (l : Loop τ Job (Station τ ρ)),
        c.Due listen w l → c.Polled setup listen w l :=
  ⟨scanned setup, fun _ _ _ _ h => h.polled setup⟩

end Station

namespace Observer

open Loop Station World
open Ledger (awaited)

def interface (name : String) (state : List UInt8) : LooseText × FileNode :=
  (name, .directory [("operstate", .file ⟨state.toArray⟩ 0)] 0)

/-- A loopback that is up, an interface whose state is no text, and one that is up. -/
def interfaces : List (LooseText × FileNode) :=
  [interface "lo" [117, 112, 10], interface "eth0" [0xff], interface "wlan0" [117, 112, 10]]

def listed (entries : List (LooseText × FileNode)) : World :=
  ({} : World).relisted Ledger.polling.interfacesPath entries 0

/-- An observer was told that there is no connection, and its next poll has just been taken. -/
def aboutToPoll (entries : List (LooseText × FileNode)) : Loop Rat Job (Station Rat Observer) where
  seconds := 1
  host := { world := listed entries, watches := [⟨.interfaces, true, some (.flag false)⟩],
            owner := { seen := [.connection false], watches := [0] } }

theorem due_aboutToPoll (entries : List (LooseText × FileNode)) :
    (hearing .connection 0).Due listen ⟨.interfaces, true, some (.flag false)⟩
      (aboutToPoll entries) where
  signal := rfl
  stands := ⟨⟨fun _ => none, ⟨Ledger.timed_empty, nofun⟩, rfl⟩, rfl, rfl⟩
  active := rfl
  heeds := heeds_signal .connection 0
  fit _ h := (Option.some.inj h).symm

theorem garbled_of_ff : Garbled (interface "eth0" [0xff]) :=
  ⟨by decide, ⟨#[0xff]⟩, rfl, by decide +kernel⟩

/-- In the one order the poll is broken off, in the other the observer is told that there is a
connection. -/
theorem connection_in_two_orders :
    (¬∀ order : List (LooseText × FileNode), order.Perm interfaces →
      Tells (Signal.connection.state Ledger.polling (listed order)) interfaces) ∧
    (poll Ledger.polling listen .interfaces 0 (aboutToPoll interfaces) =
        .error (.fault .undecodable) (aboutToPoll interfaces) ∧
      awaited .interfaces (aboutToPoll interfaces).queue = []) ∧
    ∃ l' active, poll Ledger.polling listen .interfaces 0 (aboutToPoll interfaces.reverse) =
        .ok () l' ∧
      (hearing .connection 0).heard l'.host.owner = [false, true] ∧
      (hearing .connection 0).Saw true active l' := by
  obtain ⟨hscanned, hpolled⟩ := connection_unless_garbled (ρ := Observer) Ledger.polling
  have hlisted : (listed interfaces).node? Ledger.polling.interfacesPath =
      .ok (some (.directory interfaces 0)) := rfl
  refine ⟨fun h => ?_, ?_, ?_⟩
  · have hclear := ((hscanned (listed interfaces)).orders _ _ hlisted).mp h
    exact hclear _ (by simp [interfaces]) garbled_of_ff
  · exact (hpolled _ _ _ _ (due_aboutToPoll interfaces)).broken _ (by decide +kernel)
  · exact (hpolled _ _ _ _ (due_aboutToPoll interfaces.reverse)).answered true (by decide +kernel)

/-- The one interface that is listed has a state that is no text. -/
theorem connection_of_garbled_breaks :
    ¬∀ (world : World) (entries : List (LooseText × FileNode)) (stamp : Stamp),
      world.node? Ledger.polling.interfacesPath = .ok (some (.directory entries stamp)) →
        Tells (Signal.connection.state Ledger.polling world) entries := by
  intro h
  obtain ⟨b, hb, -⟩ := h (listed [interface "eth0" [0xff]]) _ _ rfl
  have hbroken : Signal.connection.state Ledger.polling (listed [interface "eth0" [0xff]]) =
      .error .undecodable := by decide +kernel
  rw [hbroken] at hb
  cases hb

end Observer

end TrafficIndicator
