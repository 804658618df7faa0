import TrafficIndicator.CommandLine.Options
import TrafficIndicator.Text.Quoted
/-!
Reading of the command line. Every argument before a separator is first told apart: a flag,
which may be shortened as long as it stays unambiguous and may carry its value behind an
equals sign, or a plain argument. The flags then take effect in order; the first fault ends
the reading, and so does a request for help. What no flag has taken is refused at the end.
-/
namespace TrafficIndicator.CommandLine

inductive Misuse where
  | ambiguous (argument : LooseText) (spellings : List String)
  | valueMissing (t : Target)
  | valueUnwanted (t : Target) (value : LooseText)
  | notANumber (t : Target) (value : LooseText)
  | notAChoice (t : Target) (value : LooseText)
  | unrecognized (arguments : List LooseText)
  deriving DecidableEq, Repr

def Misuse.text : Misuse → LooseText
  | .ambiguous argument spellings =>
    "ambiguous option: " ++ argument ++ " could match " ++ String.intercalate ", " spellings
  | .valueMissing t => "argument " ++ t.title ++ ": expected one argument"
  | .valueUnwanted t value =>
    "argument " ++ t.title ++ ": ignored explicit argument " ++ String.ofList value.quoted
  | .notANumber t value =>
    "argument " ++ t.title ++ ": invalid float value: " ++ String.ofList value.quoted
  | .notAChoice t value =>
    "argument " ++ t.title ++ ": invalid choice: " ++ String.ofList value.quoted ++
      " (choose from 'bits', 'bytes')"
  | .unrecognized arguments => "unrecognized arguments: " ++ LooseText.join " " arguments

def Misuse.message (m : Misuse) : LooseText := (program ++ ": error: " : String) ++ m.text

inductive Stop where
  | help
  | misuse (m : Misuse)
  deriving DecidableEq, Repr

def Stop.exitCode : Stop → Nat
  | .help => 0
  | .misuse _ => 2

def Stop.output : Stop → String
  | .help => helpText
  | .misuse _ => ""

def Stop.complaint : Stop → LooseText
  | .help => ""
  | .misuse m => usage ++ m.message ++ "\n"

inductive Kind where
  | plain
  /-- All arguments after a separator are plain. -/
  | separator
  | unknownFlag
  /-- A flag, and the value that it carries in the same argument. -/
  | flag (f : Flag) (value : Option LooseText)
  deriving DecidableEq, Repr

def separator : LooseText := "--"

def flag? (t : LooseText) : Option Flag := flags.find? fun f => t = f.spelling

def isNegativeNumber (t : LooseText) : Bool :=
  let isDigit (c : Char) : Bool := (Text.decimalValue? c).isSome
  match t.chars? with
  | some ('-' :: rest) =>
    let body := if rest.getLast? = some '\n' then rest.dropLast else rest
    match Text.cutAt '.' body with
    | none => body ≠ [] && body.all isDigit
    | some (whole, part) => part ≠ [] && whole.all isDigit && part.all isDigit
  | _ => false

def splitValue (t : LooseText) : LooseText × Option LooseText :=
  match t.cutAt '=' with
  | none => (t, none)
  | some (name, value) => (name, some value)

def candidates (t : LooseText) : List (Flag × Kind) :=
  if t.startsWith "--" then
    let (name, value) := splitValue t
    (flags.filter fun f => name.opens f.spelling).map fun f => (f, .flag f value)
  else if t.startsWith helpFlag.spelling then
    [(helpFlag, .flag helpFlag (some (t.drop helpFlag.spelling.length)))]
  else []

def classify (t : LooseText) : Except Misuse Kind :=
  if !t.startsWith "-" then .ok .plain
  else match flag? t with
    | some f => .ok (.flag f none)
    | none =>
      if t = "-" then .ok .plain
      else
        let (name, value) := splitValue t
        match flag? name, value with
        | some f, some v => .ok (.flag f (some v))
        | _, _ =>
          match candidates t with
          | [(_, kind)] => .ok kind
          | [] =>
            if isNegativeNumber t || t.contains ' ' then .ok .plain else .ok .unknownFlag
          | several => .error (.ambiguous t (several.map fun (f, _) => f.spelling))

abbrev Word := LooseText × Kind

def classifyAll : List LooseText → Except Misuse (List Word)
  | [] => .ok []
  | t :: rest =>
    if t = separator then .ok ((t, .separator) :: rest.map fun r => (r, .plain))
    else do
      let kind ← classify t
      let words ← classifyAll rest
      .ok ((t, kind) :: words)

def number (t : Target) (value : LooseText) : Except Stop Binary64 :=
  match value.chars?.bind Binary64.read? with
  | some x => .ok x
  | none => .error (.misuse (.notANumber t value))

def unit (value : LooseText) : Except Stop RateUnit :=
  if value = "bits" then .ok .bits
  else if value = "bytes" then .ok .bytes
  else .error (.misuse (.notAChoice .unit value))

/-- What an option is given by a value. A separator gives it nothing. -/
def given {α : Type} (read : LooseText → Except Stop α) (value : LooseText) :
    Except Stop (Given α) :=
  if value = separator then .ok .nothing else (read value).map .value

def setValue (o : Options) (t : Target) (value : LooseText) : Except Stop Options :=
  match t with
  | .interval => (given (number t) value).map fun x => { o with interval := x }
  | .poll => (given (number t) value).map fun x => { o with poll := x }
  | .unit => (given unit value).map fun x => { o with unit := x }
  | .interface => (given (.ok ∘ some) value).map fun x => { o with interface := x }
  | .exclude => (given .ok value).map fun x => { o with exclude := x }
  | .settingsFile => (given (.ok ∘ some) value).map fun x => { o with settingsFile := x }
  | .color => (given (.ok ∘ some) value).map fun x => { o with color := x }
  | .logLevel => (given .ok value).map fun x => { o with logLevel := x }
  | .help | .enabled | .autoHide => .ok o

def setSwitch (o : Options) (f : Flag) : Except Stop Options :=
  match f.target, f.switch with
  | .help, _ => .error .help
  | .enabled, some b => .ok { o with enabled := b }
  | .autoHide, some b => .ok { o with autoHide := b }
  | _, _ => .ok o

/-- What the code points behind the short flag for help lead to. It may be repeated, but it
takes no value. -/
def helpCluster : List Nat → Stop
  | [] => .misuse (.valueUnwanted .help "")
  | p :: rest =>
    if p ≠ 'h'.toNat then .misuse (.valueUnwanted .help (.ofPoints (p :: rest)))
    else if rest = [] then .help
    else helpCluster rest

def unwanted (f : Flag) (value : LooseText) : Stop :=
  if f.isShort then helpCluster value.codePoints
  else .misuse (.valueUnwanted f.target value)

def takeEffect (o : Options) : List Word → Except Stop (Options × List LooseText)
  | [] => .ok (o, [])
  | (t, .plain) :: rest | (t, .separator) :: rest | (t, .unknownFlag) :: rest => do
    let (o, extra) ← takeEffect o rest
    .ok (o, t :: extra)
  | (_, .flag f (some value)) :: rest =>
    if f.wantsValue then do
      let o ← setValue o f.target value
      takeEffect o rest
    else .error (unwanted f value)
  | (_, .flag f none) :: rest =>
    if f.wantsValue then
      match rest with
      | (value, .plain) :: rest => do
        let o ← setValue o f.target value
        takeEffect o rest
      | _ => .error (.misuse (.valueMissing f.target))
    else do
      let o ← setSwitch o f
      takeEffect o rest

def parse (arguments : List LooseText) : Except Stop Options :=
  match classifyAll arguments with
  | .error m => .error (.misuse m)
  | .ok words =>
    match takeEffect {} words with
    | .error s => .error s
    | .ok (o, []) => .ok o
    | .ok (_, extra) => .error (.misuse (.unrecognized extra))

end TrafficIndicator.CommandLine
