import TrafficIndicator.Log.Notice
import TrafficIndicator.Time.Rounded
/-!
A notice as a line of text: its level and its wording, with the arguments in their places.
-/
namespace TrafficIndicator

def Problem.text : Problem → String
  | .missing => "not found"
  | .denied => "permission denied"
  | .timedOut => "no answer in time"
  | .isDirectory => "is a directory"
  | .notDirectory => "is not a directory"
  | .malformed => "not a JSON text"

def LooseText.shown (t : LooseText) : String :=
  String.ofList (t.codePoints.flatMap fun p =>
    if p.isValidChar then [Char.ofNat p] else Text.numbered p)

namespace Value

mutual

def shown : Value → String
  | .null => "null"
  | .bool b => if b then "true" else "false"
  | .int n => toString n
  | .float x => toString x.toFloat
  | .undefined _ => "NaN"
  | .text t => t.shown
  | .list xs => "[" ++ String.intercalate ", " (shownItems xs) ++ "]"
  | .dict es => "\x7b" ++ String.intercalate ", " (shownEntries es) ++ "\x7d"

def shownItems : List Value → List String
  | [] => []
  | v :: vs => shown v :: shownItems vs

def shownEntries : List (LooseText × Value) → List String
  | [] => []
  | (k, v) :: es => (k.shown ++ ": " ++ shown v) :: shownEntries es

end

end Value

namespace Notice

/-- Fills the places of a wording in turn. A place is a percent sign and what follows it up
to a letter; `inPlace` says whether the characters belong to one. -/
def fill (inPlace : Bool) : List Char → List String → List Char
  | [], _ => []
  | c :: cs, args =>
    if inPlace then fill (!c.isAlpha) cs args
    else if c = '%' then (args.headD "").toList ++ fill true cs args.tail
    else c :: fill false cs args

def Argument.shown {τ : Type} (time : τ → String) : Argument τ → String
  | .value v => v.shown
  | .time t => time t
  | .problem p => p.text

def line {τ : Type} (time : τ → String) (n : Notice τ) : String :=
  n.level.name ++ " " ++
    String.ofList (fill false n.wording.toList (n.arguments.map (Argument.shown time)))

example : (Notice.attached 2000 : Notice Nat).line toString =
    "INFO Indicator attached (interval 2000 ms)" := by decide +kernel

example : (Notice.probeFailed 1 "no bus" : Notice Nat).line toString =
    "DEBUG loginctl exited with 1: no bus" := by decide +kernel

end Notice

end TrafficIndicator
