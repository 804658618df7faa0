import TrafficIndicator.Log.Notice
import TrafficIndicator.Text.Blank
import TrafficIndicator.Value.Json
import TrafficIndicator.World.Tree
/-!
The outside world as the indicator sees it: the files around it, among them the counter table
and the states of the network interfaces, and the probe of the login session. Reading it
yields a value or a fault, and notices about what could not be asked.
-/
namespace TrafficIndicator

inductive Probe where
  | finished (code : Int) (output complaint : LooseText)
  | failed (p : Problem)
  deriving DecidableEq, Repr

namespace Probe

def command (session : LooseText) : List LooseText :=
  ["loginctl", "show-session", session, "-p", "LockedHint", "--value"]

def patience : Nat := 500

end Probe

structure World where
  here : Place := .fresh
  /-- Nodes that go by the one path under which they were found, wherever they lie. -/
  found : List (LooseText × FileNode) := []
  probe : Probe := .failed .missing

/-- The value of an observation, or why there is none, and what it gave notice of. -/
structure Observed (τ α : Type) where
  notices : List (Notice τ) := []
  outcome : Except Fault α

namespace World

variable {τ : Type}

/-- Why no file can be looked for at a path, if so. A path ends at its first null character,
and of the surrogates only those that stand for a byte may be alone. -/
def pathFault? (path : LooseText) : Option Fault :=
  let isUnwritable (p : Nat) : Bool := !p.isValidChar && !(0xDC80 ≤ p && p ≤ 0xDCFF)
  if path.codePoints.any isUnwritable then some .unencodable
  else if path.codePoints.contains 0 then some .pathBroken
  else none

def node? (w : World) (path : LooseText) : Except Fault (Option FileNode) :=
  match pathFault? path with
  | some f => .error f
  | none => .ok ((w.found.lookup path).or (w.here.node? path))

def stamp? (w : World) (path : LooseText) : Except Fault (Option Stamp) :=
  (w.node? path).map fun node => node.map FileNode.stamp

def content? (w : World) (path : LooseText) : Option ByteArray :=
  match w.node? path with
  | .ok (some node) => node.content?
  | _ => none

/-- Whether an interface other than the loopback is up. The first one that is settles it. An
interface without a state cannot be told to be up. -/
def anyUp : List (LooseText × Option ByteArray) → Except Fault Bool
  | [] => .ok false
  | (name, state) :: rest =>
    if name = "lo" then anyUp rest
    else match state with
      | none => anyUp rest
      | some bytes =>
        match String.fromUTF8? bytes with
        | none => .error .undecodable
        | some text => if Text.trim text.toList = "up".toList then .ok true else anyUp rest

def interfaceState (node : FileNode) : Option ByteArray :=
  (node.entry? "operstate").bind FileNode.content?

/-- Interfaces that cannot be listed count as a connection. -/
def connected (w : World) (path : String) : Observed τ Bool :=
  match w.node? path with
  | .error f => ⟨[], .error f⟩
  | .ok none => ⟨[.interfacesUnlisted path .missing], .ok true⟩
  | .ok (some (.file ..)) => ⟨[.interfacesUnlisted path .notDirectory], .ok true⟩
  | .ok (some (.directory entries _)) =>
    ⟨[], anyUp (entries.map fun (name, node) => (name, interfaceState node))⟩

/-- Whether a named session is locked. A session without a name is not asked for. -/
def locked (w : World) (session : LooseText) : Observed τ Bool :=
  if session.isEmpty then ⟨[], .ok false⟩
  else match w.probe with
    | .failed p => ⟨[.probeUnavailable p], .ok false⟩
    | .finished code output complaint =>
      if code = 0 then ⟨[], .ok (output.trim = "yes")⟩
      else ⟨[.probeFailed code complaint.trim], .ok false⟩

/-- The entries of a settings file; `none`, with a notice, where it is missing or holds no
JSON object. Bytes that are no text, and a value over the limits of the reader, are faults. -/
def settings (w : World) (path : LooseText) (nesting : Option Nat) :
    Observed τ (Option (List (LooseText × Value))) :=
  match w.node? path with
  | .error f => ⟨[], .error f⟩
  | .ok none => ⟨[.fileMissing path], .ok none⟩
  | .ok (some (.directory ..)) => ⟨[.fileUnreadable path .isDirectory], .ok none⟩
  | .ok (some (.file content _)) =>
    match String.fromUTF8? content with
    | none => ⟨[], .error .undecodable⟩
    | some text =>
      match Json.read text.toList { depth := nesting } with
      | .error .malformed => ⟨[.fileUnreadable path .malformed], .ok none⟩
      | .error (.numeralTooLong n) => ⟨[], .error (.numeralTooLong n)⟩
      | .error .tooDeep => ⟨[], .error .tooDeep⟩
      | .ok (.dict entries) => ⟨[], .ok (some entries)⟩
      | .ok _ => ⟨[.fileNotObject path], .ok none⟩

structure Change where
  /-- Names in the working directory, and what they stand for from now on. -/
  entries : List (LooseText × Option FileNode) := []
  /-- When the change is made. -/
  time : Stamp := 0
  probe : Option Probe := none

def change (w : World) (c : Change) : World :=
  let put (n : FileNode) : LooseText × Option FileNode → FileNode
    | (name, node) => n.put name node c.time
  { w with
    here := { w.here with node := c.entries.foldl put w.here.node }
    probe := c.probe.getD w.probe }

end World

end TrafficIndicator
