import TrafficIndicator.Fault
import TrafficIndicator.Text.Blank
/-!
Numerals. A decimal digit of any script has a value from 0 to 9 and its script lays out the ten
of them in order. An integer numeral is an optional sign and digits, with single underscores
between digits and blanks around; a scientific one has at most one point among or beside its
digits and an optional power of ten.
-/
namespace TrafficIndicator.Text

def digitZeros : List Nat :=
  [0x30, 0x660, 0x6F0, 0x7C0, 0x966, 0x9E6, 0xA66, 0xAE6, 0xB66, 0xBE6, 0xC66, 0xCE6, 0xD66,
   0xDE6, 0xE50, 0xED0, 0xF20, 0x1040, 0x1090, 0x17E0, 0x1810, 0x1946, 0x19D0, 0x1A80, 0x1A90,
   0x1B50, 0x1BB0, 0x1C40, 0x1C50, 0xA620, 0xA8D0, 0xA900, 0xA9D0, 0xA9F0, 0xAA50, 0xABF0,
   0xFF10, 0x104A0, 0x10D30, 0x11066, 0x110F0, 0x11136, 0x111D0, 0x112F0, 0x11450, 0x114D0,
   0x11650, 0x116C0, 0x11730, 0x118E0, 0x11950, 0x11C50, 0x11D50, 0x11DA0, 0x16A60, 0x16AC0,
   0x16B50, 0x1D7CE, 0x1D7D8, 0x1D7E2, 0x1D7EC, 0x1D7F6, 0x1E140, 0x1E2F0, 0x1E950, 0x1FBF0]

def decimalValue? (c : Char) : Option Nat :=
  digitZeros.findSome? fun z =>
    if z ≤ c.toNat ∧ c.toNat < z + 10 then some (c.toNat - z) else none

/-- Superscripts, subscripts, circled and other figures: they count as digits of a text
although they have no place in a positional numeral. -/
def figureRanges : List (Nat × Nat) :=
  [(0xB2, 0xB3), (0xB9, 0xB9), (0x1369, 0x1371), (0x19DA, 0x19DA), (0x2070, 0x2070),
   (0x2074, 0x2079), (0x2080, 0x2089), (0x2460, 0x2468), (0x2474, 0x247C), (0x2488, 0x2490),
   (0x24EA, 0x24EA), (0x24F5, 0x24FD), (0x24FF, 0x24FF), (0x2776, 0x277E), (0x2780, 0x2788),
   (0x278A, 0x2792), (0x10A40, 0x10A43), (0x10E60, 0x10E68), (0x11052, 0x1105A),
   (0x1F100, 0x1F10A)]

def isFigure (c : Char) : Bool :=
  (decimalValue? c).isSome ||
    figureRanges.any fun (first, last) => first ≤ c.toNat && c.toNat ≤ last

def isPadding (c : Char) : Bool :=
  isBlank c && !(28 ≤ c.toNat && c.toNat ≤ 31)

/-- The longest start of a text made of digits with single underscores between them, and
the rest. `none` when there is no digit to begin with, or an underscore lacks a digit on
one of its sides. -/
def digitRun (afterDigit : Bool) : List Char → Option (List Nat × List Char)
  | [] => if afterDigit then some ([], []) else none
  | c :: cs =>
    match decimalValue? c with
    | some d => (digitRun true cs).map fun (ds, rest) => (d :: ds, rest)
    | none =>
      if !afterDigit then none
      else if c = '_' then digitRun false cs
      else some ([], c :: cs)

def ofDigits (ds : List Nat) : Nat := ds.foldl (fun n d => 10 * n + d) 0

def signed : List Char → Bool × List Char
  | '-' :: cs => (true, cs)
  | '+' :: cs => (false, cs)
  | cs => (false, cs)

def readInteger (text : List Char) : Except Fault Int :=
  let (negative, body) := signed (trimWhere isPadding text)
  match digitRun false body with
  | none => .error (.notAnInteger (.ofList text))
  | some (ds, rest) =>
    if digitLimit < ds.length then .error (.numeralTooLong ds.length)
    else if rest ≠ [] then .error (.notAnInteger (.ofList text))
    else .ok (if negative then -(ofDigits ds : Int) else ofDigits ds)

theorem ofDigits_append (xs ys : List Nat) :
    ofDigits (xs ++ ys) = ys.foldl (fun n d => 10 * n + d) (ofDigits xs) := by
  simp [ofDigits]

theorem ofDigits_concat (ds : List Nat) (d : Nat) :
    ofDigits (ds ++ [d]) = 10 * ofDigits ds + d := by
  rw [ofDigits_append]
  rfl

theorem signed_of_ne {c : Char} (hm : c ≠ '-') (hp : c ≠ '+') (cs : List Char) :
    signed (c :: cs) = (false, c :: cs) := by
  simp [signed, hm, hp]

def withinDigitLimit (n : Int) : Bool := n.natAbs < Nat.pow 10 digitLimit

structure Scientific where
  negative : Bool
  digits : List Nat
  exponent : Int
  deriving DecidableEq, Repr

def optionalRun : List Char → Option (List Nat × List Char)
  | [] => some ([], [])
  | c :: cs => if (decimalValue? c).isSome then digitRun false (c :: cs) else some ([], c :: cs)

def readExponent : List Char → Option Int
  | [] => some 0
  | c :: cs =>
    if c = 'e' ∨ c = 'E' then
      let (minus, body) := signed cs
      match digitRun false body with
      | some (ds, []) => some (if minus then -(ofDigits ds : Int) else ofDigits ds)
      | _ => none
    else none

def readUnsigned (negative : Bool) (cs : List Char) : Option Scientific := do
  let (whole, rest) ← optionalRun cs
  let (part, rest) ← match rest with
    | '.' :: rest => optionalRun rest
    | rest => some ([], rest)
  if whole ++ part = [] then none
  let exponent ← readExponent rest
  some ⟨negative, whole ++ part, exponent - part.length⟩

def Scientific.read (cs : List Char) : Option Scientific :=
  let (minus, body) := signed cs
  readUnsigned minus body

end TrafficIndicator.Text
