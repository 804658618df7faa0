import TrafficIndicator.Counters.Table
import TrafficIndicator.Indicator.Handlers
import TrafficIndicator.Screen
import TrafficIndicator.Station.Watching
/-!
An indicator on a station: its timers, its collaborators and the screen. The requests of a
reaction are performed in order, each before the next event; where the screen refuses a command,
the reaction breaks off and the indicator keeps the state it was in then. Attaching starts to
watch the collaborators one after another; each may deliver at once.
-/
namespace TrafficIndicator

inductive StateFeed where
  | fixed (b : Bool)
  | polled
  deriving DecidableEq, Repr

inductive SettingsFeed where
  | fixed (entries : List (LooseText × Value))
  | file

structure Collaborators where
  /-- The feeds of settings; a later one overrides an earlier one. -/
  settings : List SettingsFeed := []
  connectivity : Option StateFeed := none
  tint : Option (Value × Bool) := none
  lock : Option StateFeed := none

inductive CounterFeed where
  /-- Totals as they were set, or a failure in the words that were set. -/
  | scripted (rx tx : Int) (failure : Option LooseText)
  | table (filter : Counters.Filter)

structure Panel (τ : Type) where
  indicator : Indicator τ
  timers : Slots TimerKind := {}
  screen : Screen := {}
  /-- The watches of each collaborator, the latest first. -/
  watches : List (List Nat) := []
  counters : CounterFeed

namespace Panel

structure Setup (τ : Type) where
  station : Station.Setup τ
  /-- Which cancellations of its own timers reach the loop. -/
  reaches : Nat → Bool := fun _ => true
  collaborators : Collaborators := {}

abbrev Act (τ α : Type) := Station.Act τ (Panel τ) α

variable {τ : Type} [TimeScale τ]

omit [TimeScale τ] in
def modifyPanel (f : Panel τ → Panel τ) : Act τ Unit :=
  Loop.modifyHost fun s => { s with owner := f s.owner }

omit [TimeScale τ] in
def onTimers (f : Slots TimerKind → Queue τ Job → Slots TimerKind × Queue τ Job) : Act τ Unit :=
  modify fun l =>
    let (timers, queue) := f l.host.owner.timers l.queue
    { l with
      queue := queue
      host := { l.host with owner := { l.host.owner with timers := timers } } }

def perform (setup : Setup τ) : Request τ → Act τ Unit
  | .send c => do
    let (screen, fault) := (← get).host.owner.screen.take c
    modifyPanel fun p => { p with screen := screen }
    match fault with
    | none => pure ()
    | some f => throw (.fault f)
  | .arm kind delay => do
    let deadline := (← get).deadline delay
    onTimers fun s q => s.arm setup.reaches kind deadline (.own kind) q
  | .disarm kind => onTimers fun s q => s.disarm setup.reaches kind q
  | .note n => Station.report [n]

def react (setup : Setup τ) (f : Indicator τ → Reaction τ) : Act τ Unit := do
  let r := f (← get).host.owner.indicator
  r.steps.forM fun (state, request) => do
    modifyPanel fun p => { p with indicator := state }
    perform setup request
  modifyPanel fun p => { p with indicator := r.state }
  match r.fault with
  | none => pure ()
  | some fault => throw (.fault fault)

def listen (setup : Setup τ) (d : Delivery) : Act τ Unit := react setup fun i => i.receive d

def readCounters (setup : Setup τ) : Act τ (Except Fault (Reading τ)) := do
  let l ← get
  let totals : Except Fault (Int × Int) :=
    match l.host.owner.counters with
    | .scripted rx tx none => .ok (rx, tx)
    | .scripted _ _ (some message) => .error (.reported message)
    | .table filter =>
      Counters.fileTotals filter setup.station.countersPath
        (l.host.world.content? setup.station.countersPath)
  return totals.map fun (rx, tx) => ⟨rx, tx, l.now⟩

/-- A tick. The counters are read only while the indicator is attached. -/
def tick (setup : Setup τ) : Act τ Unit := do
  if (← get).host.owner.indicator.attached then
    let reading ← readCounters setup
    react setup fun i => i.tick reading

def fireOwn (setup : Setup τ) (token : Nat) (kind : TimerKind) : Act τ Unit := do
  onTimers fun s q => (s.release kind token, q)
  match kind with
  | .tick => tick setup
  | .refresh => react setup Indicator.refresh

def fire (setup : Setup τ) : Entry τ Job → Act τ Unit :=
  Station.fire setup.station (listen setup) (fireOwn setup)

def remember (ids : List Nat) : Act τ Unit :=
  modifyPanel fun p => { p with watches := ids :: p.watches }

/-- Starts to listen to a feed of settings and answers the watches that were started. -/
def openSettings (setup : Setup τ) : SettingsFeed → Act τ (List Nat)
  | .fixed entries => do
    entries.forM fun (key, value) => listen setup (.setting key value)
    return []
  | .file => do
    return [← Station.watch setup.station (listen setup) .settingsFile]

def openState (setup : Setup τ) (feed : Feed) (deliver : Bool → Delivery) :
    StateFeed → Act τ (List Nat)
  | .fixed b => do
    listen setup (deliver b)
    return []
  | .polled => do
    return [← Station.watch setup.station (listen setup) feed]

def openCollaborators (setup : Setup τ) : Act τ Unit := do
  let c := setup.collaborators
  remember (← c.settings.mapM (openSettings setup)).flatten
  if let some feed := c.connectivity then
    remember (← openState setup .interfaces .connection feed)
  if let some (color, pinned) := c.tint then
    listen setup (.tint color pinned)
  if let some feed := c.lock then
    remember (← openState setup .session .lock feed)

def attach (setup : Setup τ) : Act τ Unit := do
  if !(← get).host.owner.indicator.attached then
    react setup Indicator.join
    openCollaborators setup
    let armed := (← get).host.owner.timers.isArmed .tick
    react setup fun i => i.settleIn armed

def detach (setup : Setup τ) : Act τ Unit := do
  onTimers fun s q => s.disarmAll setup.reaches q
  (← get).host.owner.watches.forM fun ids => ids.forM Station.unwatch
  modifyPanel fun p => { p with watches := [] }
  react setup Indicator.leave

def advance (setup : Setup τ) (ms : τ) : Act τ Unit :=
  Loop.advance (fire setup) Loop.turnLimit ms

end Panel

end TrafficIndicator
