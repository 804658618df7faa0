import TrafficIndicator.Station.Basic
/-!
Watching of feeds. A watch delivers what its feed says at once and after that whatever a
poll finds changed. The settings file delivers the entries that differ from those read
before, and the entries that vanished with their defaults.
-/
namespace TrafficIndicator

/-- The entries of a settings file that have to be told: those that are new or differ, in
the order of the file, then those that vanished, in the order of their keys. -/
def changedEntries (defaults before now : List (LooseText × Value)) : List (LooseText × Value) :=
  let differing := now.filter fun (k, v) =>
    match before.lookup k with
    | none => true
    | some w => !w.equal v
  let vanished := (before.map (·.1)).filter fun k => (now.lookup k).isNone
  differing ++ (vanished.mergeSort fun a b => !b.before a).map fun k =>
    (k, (defaults.lookup k).getD .null)

namespace Station

variable {τ ρ : Type} [TimeScale τ]

abbrev Listener (τ ρ : Type) := Delivery → Act τ ρ Unit

omit [TimeScale τ] in
/-- Tells the listener a setting of the file. A listener that has ended the watch is gone, also
for what is left of one reading. -/
def tellSetting (listen : Listener τ ρ) (e : LooseText × Value) : Act τ ρ Unit := do
  report [.settingRead e.1 e.2]
  if (← get).host.file.listening then listen (.setting e.1 e.2)
  else throw (.fault .notListening)

omit [TimeScale τ] in
/-- Reads the settings file and tells the listener what changed. -/
def reload (setup : Setup τ) (listen : Listener τ ρ) : Act τ ρ Unit := do
  let s := (← get).host
  match ← observe (s.world.settings setup.settingsPath setup.nesting) with
  | none => pure ()
  | some entries =>
    let changed := changedEntries setup.defaults s.file.entries entries
    modifyFile fun m => { m with entries := entries }
    if s.file.listening then changed.forM (tellSetting listen)

omit [TimeScale τ] in
def look (setup : Setup τ) (listen : Listener τ ρ) : Act τ ρ (Option Stamp) := do
  let s := (← get).host
  match s.world.stamp? setup.settingsPath with
  | .error f => throw (.fault f)
  | .ok none => return s.file.stamp
  | .ok (some stamp) =>
    if some stamp ≠ s.file.stamp then
      modifyFile fun m => { m with stamp := some stamp }
      reload setup listen
    return (← get).host.file.stamp

omit [TimeScale τ] in
def ask (setup : Setup τ) (listen : Listener τ ρ) : Feed → Act τ ρ Sighting
  | .interfaces => do
    return .flag (← observe ((← get).host.world.connected setup.interfacesPath))
  | .session => do
    if !setup.session.isEmpty then
      Loop.modifyHost fun s => { s with asked := s.asked ++ [setup.session] }
    return .flag (← observe ((← get).host.world.locked setup.session))
  | .settingsFile => do
    return .stamp (← look setup listen)

omit [TimeScale τ] in
/-- What a sighting of a feed means to the listener. The settings file has told its changes
already. -/
def tell (listen : Listener τ ρ) : Feed → Sighting → Act τ ρ Unit
  | .interfaces, .flag b => listen (.connection b)
  | .session, .flag b => listen (.lock b)
  | _, _ => pure ()

omit [TimeScale τ] in
def modifyWatch (id : Nat) (f : Watch → Watch) : Act τ ρ Unit :=
  Loop.modifyHost fun s => { s with watches := s.watches.modify id f }

omit [TimeScale τ] in
def onSlots (f : Slots Feed → Queue τ Job → Slots Feed × Queue τ Job) : Act τ ρ Unit :=
  modify fun l =>
    let (slots, queue) := f l.host.slots l.queue
    { l with queue := queue, host := { l.host with slots := slots } }

def armPoll (setup : Setup τ) (feed : Feed) (id : Nat) : Act τ ρ Unit := do
  let deadline := (← get).deadline (setup.interval feed)
  onSlots fun s q => s.arm (fun _ => true) feed deadline (.poll feed id) q

def watch (setup : Setup τ) (listen : Listener τ ρ) (feed : Feed) : Act τ ρ Nat := do
  let id := (← get).host.watches.length
  if feed = .settingsFile then modifyFile fun _ => { listening := true }
  Loop.modifyHost fun s => { s with watches := s.watches ++ [{ feed := feed }] }
  let seen ← ask setup listen feed
  modifyWatch id fun w => { w with last := some seen }
  tell listen feed seen
  armPoll setup feed id
  return id

omit [TimeScale τ] in
def unwatch (id : Nat) : Act τ ρ Unit := do
  match (← get).host.watches[id]? with
  | none => pure ()
  | some w =>
    modifyWatch id fun w => { w with active := false }
    onSlots fun s q => s.disarm (fun _ => true) w.feed q
    if w.feed = .settingsFile then modifyFile fun m => { m with listening := false }

def poll (setup : Setup τ) (listen : Listener τ ρ) (feed : Feed) (id : Nat) : Act τ ρ Unit := do
  match (← get).host.watches[id]? with
  | none => pure ()
  | some w =>
    if w.active then
      let seen ← ask setup listen feed
      if some seen ≠ w.last then
        modifyWatch id fun w => { w with last := some seen }
        tell listen feed seen
      if ((← get).host.watches[id]?).any (·.active) then armPoll setup feed id

def fire (setup : Setup τ) (listen : Listener τ ρ) (own : Nat → TimerKind → Act τ ρ Unit)
    (e : Entry τ Job) : Act τ ρ Unit :=
  match e.job with
  | .own kind => own e.token kind
  | .poll feed id => do
    onSlots fun s q => (s.release feed e.token, q)
    poll setup listen feed id

end Station

end TrafficIndicator
