import TrafficIndicator.Text.Numeral
/-!
Log levels and how they are named on the command line and in the environment.
-/
namespace TrafficIndicator

inductive LogLevel where
  | debug
  | info
  | warning
  deriving DecidableEq, Repr

namespace LogLevel

def number : LogLevel → Int
  | .debug => 10
  | .info => 20
  | .warning => 30

def name : LogLevel → String
  | .debug => "DEBUG"
  | .info => "INFO"
  | .warning => "WARNING"

def named : List (String × Int) :=
  [("CRITICAL", 50), ("FATAL", 50), ("ERROR", 40), ("WARN", 30), ("WARNING", 30), ("INFO", 20),
   ("DEBUG", 10), ("NOTSET", 0)]

/-- Upper case of the letters that a level name can be written with. The dotless i and the
long s have ASCII letters as their upper case. -/
def upper (c : Char) : Char :=
  if c = 'ı' then 'I' else if c = 'ſ' then 'S' else c.toUpper

/-- The threshold that a text names: the number it denotes when it is made of figures, the
number of a level name in any case, and the default otherwise. -/
def threshold (text : LooseText) (default : Int) : Except Fault Int :=
  match text.chars? with
  | none => .ok default
  | some cs =>
    let body := Text.trim cs
    if body ≠ [] ∧ body.all Text.isFigure then Text.readInteger body
    else .ok ((named.lookup (String.ofList (body.map upper))).getD default)

/-- A threshold as a caller gives it: a number, or a text or nothing to be looked up. -/
inductive Request where
  | number (n : Int)
  | text (t : LooseText)
  | absent
  deriving DecidableEq, Repr

def Request.resolve (r : Request) (default : Int := LogLevel.number .warning) :
    Except Fault Int :=
  match r with
  | .number n => .ok n
  | .text t => threshold t default
  | .absent => threshold "" default

/-- A threshold in the environment goes before the one that was asked for. -/
def configure (environment : Option LooseText) (r : Request) : Except Fault Int :=
  match environment with
  | some t => if t.isEmpty then r.resolve else threshold t (LogLevel.number .warning)
  | none => r.resolve

end LogLevel

end TrafficIndicator
