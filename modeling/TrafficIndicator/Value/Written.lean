import TrafficIndicator.Binary64.Written
import TrafficIndicator.Value.Basic
/-!
What values are written as. An integer of too many digits cannot be written, nor can a value with
lists and mappings deeper in one another than a limit allows; what is met first decides.
-/
namespace TrafficIndicator

open Text

namespace Value

def writtenInteger (n : Int) : Except Fault (List Char) :=
  if withinDigitLimit n then .ok (toString n).toList
  else .error (.numeralTooLong (Decimal.size n.natAbs))

def joined (items : List (List Char)) : List Char := List.intercalate [',', ' '] items

mutual

def quoted (limit : Option Nat) (depth : Nat) : Value → Except Fault (List Char)
  | .null => .ok "None".toList
  | .bool b => .ok (if b then "True" else "False").toList
  | .int n => writtenInteger n
  | .float x => .ok x.written
  | .undefined _ => .ok Binary64.nan.written
  | .text t => .ok t.quoted
  | .list items =>
    if exceeds limit (depth + 1) then .error .tooDeep
    else (quotedItems limit (depth + 1) items).map fun texts => '[' :: joined texts ++ [']']
  | .dict entries =>
    if exceeds limit (depth + 1) then .error .tooDeep
    else (quotedEntries limit (depth + 1) entries).map fun texts =>
      '\x7b' :: joined texts ++ ['\x7d']

def quotedItems (limit : Option Nat) (depth : Nat) :
    List Value → Except Fault (List (List Char))
  | [] => .ok []
  | v :: vs => do
    let text ← quoted limit depth v
    let texts ← quotedItems limit depth vs
    return text :: texts

def quotedEntries (limit : Option Nat) (depth : Nat) :
    List (LooseText × Value) → Except Fault (List (List Char))
  | [] => .ok []
  | (key, v) :: es => do
    let text ← quoted limit depth v
    let texts ← quotedEntries limit depth es
    return (key.quoted ++ ':' :: ' ' :: text) :: texts

end

def written (limit : Option Nat) : Value → Except Fault LooseText
  | .text t => .ok t
  | v => (quoted limit 0 v).map .ofList

example : (written none (.list [.bool true, .text "it's", .dict [("k", .null)]])).toOption =
    some (.chars "[True, \"it's\", \x7b'k': None\x7d]") := by decide +kernel

end Value

end TrafficIndicator
