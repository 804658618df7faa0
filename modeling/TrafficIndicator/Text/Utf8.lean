/-!
Decoding of UTF-8 in pieces. A character may begin in one piece and end in another; the first
byte that no character can have at its place breaks the text. A piece with such a byte yields
nothing, and neither does a character whose bytes are not all there at the end.
-/
namespace TrafficIndicator.Text.Utf8

/-- A character of which bytes are still to come: how many, between which bounds the next one
has to lie, and the number that the bytes so far make. -/
structure Open where
  missing : Nat
  low : Nat
  high : Nat
  number : Nat
  deriving DecidableEq, Repr

def lead? (b : Nat) : Option Open :=
  if 0xC2 ≤ b ∧ b ≤ 0xDF then some ⟨1, 0x80, 0xBF, b - 0xC0⟩
  else if b = 0xE0 then some ⟨2, 0xA0, 0xBF, 0⟩
  else if b = 0xED then some ⟨2, 0x80, 0x9F, 0xD⟩
  else if 0xE1 ≤ b ∧ b ≤ 0xEF then some ⟨2, 0x80, 0xBF, b - 0xE0⟩
  else if b = 0xF0 then some ⟨3, 0x90, 0xBF, 0⟩
  else if 0xF1 ≤ b ∧ b ≤ 0xF3 then some ⟨3, 0x80, 0xBF, b - 0xF0⟩
  else if b = 0xF4 then some ⟨3, 0x80, 0x8F, 4⟩
  else none

/-- A byte more: the character that it ends, if it ends one, and what stays open. -/
def step (o : Option Open) (b : Nat) : Option (Option Char × Option Open) :=
  match o with
  | none =>
    if b < 0x80 then some (some (Char.ofNat b), none) else (lead? b).map fun o => (none, some o)
  | some o =>
    if b < o.low ∨ o.high < b then none
    else
      let n := o.number * 64 + (b - 0x80)
      if o.missing = 1 then some (some (Char.ofNat n), none)
      else some (none, some ⟨o.missing - 1, 0x80, 0xBF, n⟩)

def piece (o : Option Open) : List UInt8 → Option (List Char × Option Open)
  | [] => some ([], o)
  | b :: bs =>
    match step o b.toNat with
    | none => none
    | some (c, o) => (piece o bs).map fun (cs, o) => (c.toList ++ cs, o)

def beforeBreak (o : Option Open) : List (List UInt8) → List Char
  | [] => []
  | p :: ps =>
    match piece o p with
    | none => []
    | some (cs, o) => cs ++ beforeBreak o ps

def pieces (size : Nat) (bytes : List UInt8) : List (List UInt8) :=
  (List.range ((bytes.length + size - 1) / size)).map fun i => (bytes.drop (i * size)).take size

example : piece none [0x61, 0xE2, 0x82] = some (['a'], some ⟨1, 0x80, 0xBF, 0x82⟩) := by decide

example : beforeBreak none [[0x61, 0xE2], [0x82, 0xAC, 0x62], [0x63, 0xFF]] = ['a', '€', 'b'] := by
  decide

example : pieces 2 [1, 2, 3, 4, 5] = [[1, 2], [3, 4], [5]] := by decide

example : beforeBreak none [[0x61], [0xE0, 0x80]] = ['a'] := by decide

end TrafficIndicator.Text.Utf8
