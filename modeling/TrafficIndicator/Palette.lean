import TrafficIndicator.Screen
/-!
Colors by name, written with the codes of a terminal of 256 colors. A name that has no UTF-8
form colors nothing.
-/
namespace TrafficIndicator.Palette

open Terminal (escape)

def codes : List (String × Nat) :=
  [("black", 0), ("white", 15), ("gray", 8), ("gray+", 7), ("red", 1), ("red+", 9), ("green", 2),
   ("green+", 10), ("orange", 3), ("orange+", 11), ("yellow", 11), ("blue", 4), ("blue+", 12),
   ("magenta", 5), ("magenta+", 13), ("cyan", 6), ("cyan+", 14)]

def code? (name : LooseText) : Option Nat :=
  match name with
  | .chars s => codes.lookup s
  | .points _ => none

def inColor (n : Nat) (text : LooseText) : LooseText :=
  LooseText.chars (escape ("38;5;" ++ toString n ++ "m")) ++ text ++ escape "0m"

/-- Lines in a color, each by itself. What follows the last line feed is a line only if it is
not empty. -/
def linesInColor (n : Nat) : List LooseText → LooseText
  | [] => ""
  | [last] => if last.isEmpty then "" else inColor n last
  | line :: rest => inColor n line ++ "\n" ++ linesInColor n rest

/-- The text in the color of a name, and as it is for any other name. Name and text end at their
first null character. -/
def paint (name text : LooseText) : Except Fault LooseText :=
  if !name.isEncodable then .error .unencodable
  else
    let text := text.upTo '\x00'
    match code? (name.upTo '\x00') with
    | none => .ok text
    | some n => .ok (linesInColor n (text.split '\n'))

def coloring : Coloring
  | .text name, text => paint name text
  | _, text => .ok text

end TrafficIndicator.Palette
