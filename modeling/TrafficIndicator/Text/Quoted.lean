import TrafficIndicator.Text.Loose
import TrafficIndicator.Text.Printable
/-!
Quoted form of a text for messages: in single quotes, or in double quotes when the text
holds a single quote and no double one. What cannot be shown is escaped.
-/
namespace TrafficIndicator.Text

def hexDigit (n : Nat) : Char := "0123456789abcdef".toList.getD (n % 16) '0'

def hexDigits : Nat → Nat → List Char
  | 0, _ => []
  | width + 1, n => hexDigits width (n / 16) ++ [hexDigit n]

def numbered (p : Nat) : List Char :=
  if p < 0x100 then '\\' :: 'x' :: hexDigits 2 p
  else if p < 0x10000 then '\\' :: 'u' :: hexDigits 4 p
  else '\\' :: 'U' :: hexDigits 8 p

def escaped (quote c : Char) : List Char :=
  if c = quote ∨ c = '\\' then ['\\', c]
  else if c = '\t' then ['\\', 't']
  else if c = '\n' then ['\\', 'n']
  else if c = '\r' then ['\\', 'r']
  else if isPrintable c then [c]
  else numbered c.toNat

end TrafficIndicator.Text

namespace TrafficIndicator.LooseText

open Text

def quoted (t : LooseText) : List Char :=
  let quote := if t.contains '\'' && !t.contains '"' then '"' else '\''
  quote :: t.codePoints.flatMap (fun p =>
    if p.isValidChar then escaped quote (Char.ofNat p) else numbered p) ++ [quote]

example : quoted "it's" = "\"it's\"".toList := by decide +kernel

example : quoted "a\tb\\" = "'a\\tb\\\\'".toList := by decide +kernel

example : quoted "é\u200b" = "'é\\u200b'".toList := by decide +kernel

example : quoted (.points [0xD800, 0x35]) = "'\\ud8005'".toList := by decide +kernel

end TrafficIndicator.LooseText
