import TrafficIndicator.Indicator.Basic
/-!
Where the commands of an indicator go. They are kept in order, and a terminal, if there is one,
draws its status line again at each of them: the cursor goes home, the line is written, colored
if it has a tint, and the rest of the screen is cleared. A command may be refused, because the
line cannot be colored or for any other cause; it has been taken all the same.
-/
namespace TrafficIndicator

abbrev Coloring := Value → LooseText → Except Fault LooseText

def Coloring.uncolored : Coloring := fun _ text => .ok text

def Coloring.tinted (coloring : Coloring) (tint : Value) (text : LooseText) :
    Except Fault LooseText :=
  match tint with
  | .null => .ok text
  | tint => if text.isEmpty then .ok text else coloring tint text

structure Terminal where
  value : LooseText := ""
  unit : LooseText := ""
  icon : Direction := .idle
  tint : Value := .null
  visible : Bool := false
  coloring : Coloring := .uncolored

namespace Terminal

def escape (code : String) : String := "\x1b[" ++ code

def home : String := escape "H"

def clear : String := escape "J"

def hideCursor : String := escape "?25l"

def showCursor : String := escape "?25h"

def line (t : Terminal) : LooseText :=
  if t.visible then
    LooseText.trimEnd (LooseText.chars t.icon.glyph ++ " " ++ t.value ++ " " ++ t.unit)
  else ""

def frame (t : Terminal) : Except Fault LooseText :=
  (t.coloring.tinted t.tint t.line).map fun body => LooseText.chars home ++ body ++ clear

def take (t : Terminal) : Command → Terminal
  | .text label => { t with value := label.value, unit := label.unit }
  | .icon d => { t with icon := d }
  | .tint color => { t with tint := color }
  | .visible shown => { t with visible := shown }

end Terminal

structure Screen where
  sent : List Command := []
  terminal : Option Terminal := none
  frames : List LooseText := []
  /-- Why the last of all commands so far is refused, if it is. -/
  refusal : List Command → Option Fault := fun _ => none

namespace Screen

def frame? (s : Screen) : Except Fault (Option LooseText) :=
  match s.terminal with
  | none => .ok none
  | some t => t.frame.map some

/-- The screen after a command, and why it was refused, if so. -/
def take (s : Screen) (c : Command) : Screen × Option Fault :=
  let s := { s with sent := s.sent ++ [c], terminal := s.terminal.map (Terminal.take · c) }
  match s.frame? with
  | .error f => (s, some f)
  | .ok frame =>
    match s.refusal s.sent with
    | some f => (s, some f)
    | none => ({ s with frames := s.frames ++ frame.toList }, none)

def cleared (s : Screen) : Screen := { s with sent := [], frames := [] }

theorem sent_take (s : Screen) (c : Command) : (s.take c).1.sent = s.sent ++ [c] := by
  rw [take]
  dsimp only
  split
  · rfl
  · split <;> rfl

end Screen

end TrafficIndicator
