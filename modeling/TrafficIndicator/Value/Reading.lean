import TrafficIndicator.Value.Written
/-!
Reading a value as an integer or as a switch. A setting is read from what its value is written
as, without the blanks around it; a refusal means the default, whether it comes from writing or
from reading. `toInteger` instead says why a value is no integer.
-/
namespace TrafficIndicator

open Text

def Fault.isRefusal : Fault → Bool
  | .notAnInteger _ | .numeralTooLong _ => true
  | _ => false

namespace Value

def readTrimmed (t : LooseText) : Except Fault Int :=
  match t.chars? with
  | none => .error (.notAnInteger t)
  | some cs => readInteger (trim cs)

def parseInteger (limit : Option Nat) (v : Value) (default : Int) : Except Fault Int :=
  match v with
  | .null => .ok default
  | .bool b => .ok (if b then 1 else 0)
  | _ =>
    match (v.written limit).bind readTrimmed with
    | .ok n => .ok n
    | .error f => if f.isRefusal then .ok default else .error f

def switchWord? (s : String) : Option Bool :=
  let word := (trim s.toList).map Char.toLower
  if word = "true".toList then some true
  else if word = "false".toList then some false
  else none

def parseSwitch (limit : Option Nat) (v : Value) (default : Bool) : Except Fault Bool :=
  let byInteger := (v.parseInteger limit (if default then 1 else 0)).map fun n => decide (n ≠ 0)
  match v with
  | .text (.chars s) => (switchWord? s).elim byInteger .ok
  | _ => byInteger

def isTruthy : Value → Bool
  | .null => false
  | .bool b => b
  | .int n => n ≠ 0
  | .float x => x.toRat? ≠ some 0
  | .undefined _ => true
  | .text t => !t.isEmpty
  | .list xs => !xs.isEmpty
  | .dict es => !es.isEmpty

def truncate (q : Rat) : Int := if 0 ≤ q then q.floor else -(-q).floor

def readLoose (t : LooseText) : Except Fault Int :=
  let asChar (p : Nat) : Char := if p.isValidChar then Char.ofNat p else '\uFFFD'
  match readInteger (t.codePoints.map asChar) with
  | .error (.notAnInteger _) => .error (.notAnInteger t)
  | result => result

def toInteger (v : Value) : Except Fault Int :=
  match v with
  | .bool b => .ok (if b then 1 else 0)
  | .int n => .ok n
  | .float x =>
    match x.toRat? with
    | some q => .ok (truncate q)
    | none => .error (if x.isInfinite then .infiniteNotInteger else .undefinedNotInteger)
  | .undefined _ => .error .undefinedNotInteger
  | .text t => readLoose t
  | _ => .error .notNumeric

end Value

end TrafficIndicator
