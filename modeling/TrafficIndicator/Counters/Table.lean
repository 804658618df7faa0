import TrafficIndicator.Text.Numeral
import TrafficIndicator.Text.Utf8
/-!
The counter table of the system: a line for each network interface, with its name, a colon
and columns of counters. The totals are sums over the interfaces that a filter lets through;
the loopback interface is never counted.
-/
namespace TrafficIndicator.Counters

open Text

structure Filter where
  /-- The one interface to count; every interface when there is none or its name is empty. -/
  only : Option LooseText := none
  excluded : List LooseText := []
  deriving DecidableEq, Repr

def loopback : LooseText := "lo"

def names (text : LooseText) : List LooseText :=
  (((text.split ',').map LooseText.trim).filter fun name => !name.isEmpty).eraseDups

def Filter.admits (f : Filter) (name : LooseText) : Bool :=
  name ≠ loopback &&
    (match f.only with
      | none => true
      | some n => n.isEmpty || n = name) &&
    !f.excluded.contains name

def rowBytes (columns : List (List Char)) : Except Fault (Option (Int × Int)) :=
  match columns[0]?, columns[8]? with
  | some first, some ninth =>
    match readInteger first with
    | .error f => .error f
    | .ok rx =>
      match readInteger ninth with
      | .error f => .error f
      | .ok tx => .ok (some (rx, tx))
  | _, _ => .ok none

def lineBytes (f : Filter) (line : List Char) : Except Fault (Option (Int × Int)) :=
  match cutAt ':' line with
  | none => .ok none
  | some (name, columns) =>
    if f.admits (.ofList (trim name)) then rowBytes (words columns) else .ok none

def sumLines (f : Filter) : List (List Char) → Except Fault (Int × Int)
  | [] => .ok (0, 0)
  | line :: rest =>
    match lineBytes f line with
    | .error e => .error e
    | .ok found =>
      match sumLines f rest with
      | .error e => .error e
      | .ok (rx, tx) =>
        let (r, t) := found.getD (0, 0)
        .ok (r + rx, t + tx)

def totals (f : Filter) (text : List Char) : Except Fault (Int × Int) := sumLines f (lines text)

def pieceSize : Nat := 8192

/-- The lines that are complete before a text breaks off. A carriage return at its end may
still belong to a longer line end. -/
def completeLines (text : List Char) : List (List Char) :=
  (lines (if text.getLast? = some '\r' then text.dropLast else text)).dropLast

/-- What is wrong with a table file that holds no text: lines that are complete before the
text breaks off are summed first, and theirs is the first fault. -/
def brokenFault (f : Filter) (bytes : List UInt8) : Fault :=
  match sumLines f (completeLines (Utf8.beforeBreak none (Utf8.pieces pieceSize bytes))) with
  | .error e => e
  | .ok _ => .undecodable

/-- The totals of a table file, which may be missing or hold no text. -/
def fileTotals (f : Filter) (path : String) (file : Option ByteArray) : Except Fault (Int × Int) :=
  match file with
  | none => .error (.countersMissing path)
  | some bytes =>
    match String.fromUTF8? bytes with
    | none => .error (brokenFault f bytes.toList)
    | some text => totals f text.toList

end TrafficIndicator.Counters
