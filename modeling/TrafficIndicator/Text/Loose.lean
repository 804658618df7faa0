import TrafficIndicator.Text.Blank
/-!
Texts from outside. Settings, arguments and names may hold surrogates that have no partner,
and no character stands for such a code point. Main fact: a text is determined by its code
points, and every list of code points makes a text.
-/
namespace TrafficIndicator

/-- A text that may hold lone surrogates; one that does is kept as its code points. -/
inductive LooseText where
  | chars (s : String)
  | points (ps : List Nat)
  deriving DecidableEq, Repr

instance : Coe String LooseText := ⟨.chars⟩

namespace LooseText

def codePoints : LooseText → List Nat
  | .chars s => s.toList.map Char.toNat
  | .points ps => ps

def ofPoints (ps : List Nat) : LooseText :=
  if ps.all fun p => p.isValidChar then .chars (String.ofList (ps.map Char.ofNat)) else .points ps

def ofList (cs : List Char) : LooseText := .chars (String.ofList cs)

def chars? : LooseText → Option (List Char)
  | .chars s => some s.toList
  | .points _ => none

def isEmpty (t : LooseText) : Bool := t.codePoints.isEmpty

def contains (t : LooseText) (c : Char) : Bool := t.codePoints.contains c.toNat

def before (a b : LooseText) : Bool := a.codePoints < b.codePoints

instance : Append LooseText := ⟨fun a b => ofPoints (a.codePoints ++ b.codePoints)⟩

def startsWith (t : LooseText) (start : String) : Bool :=
  (codePoints start).isPrefixOf t.codePoints

def opens (t : LooseText) (whole : String) : Bool :=
  t.codePoints.isPrefixOf (codePoints whole)

def drop (n : Nat) (t : LooseText) : LooseText := ofPoints (t.codePoints.drop n)

def trim (t : LooseText) : LooseText := ofPoints (Text.trimWhere Text.isBlankPoint t.codePoints)

def trimEnd (t : LooseText) : LooseText :=
  ofPoints (t.codePoints.reverse.dropWhile Text.isBlankPoint).reverse

def isEncodable (t : LooseText) : Bool := t.codePoints.all fun p => p.isValidChar

def split (mark : Char) (t : LooseText) : List LooseText :=
  (Text.splitWhere (· = mark.toNat) t.codePoints).map ofPoints

def cutAt (mark : Char) (t : LooseText) : Option (LooseText × LooseText) :=
  (Text.cutAt mark.toNat t.codePoints).map fun (a, b) => (ofPoints a, ofPoints b)

/-- The text as far as the first occurrence of a character. -/
def upTo (mark : Char) (t : LooseText) : LooseText :=
  ofPoints (t.codePoints.takeWhile (· ≠ mark.toNat))

def join (separator : LooseText) : List LooseText → LooseText
  | [] => .chars ""
  | [t] => t
  | t :: ts => t ++ separator ++ join separator ts

theorem toNat_ofNat {p : Nat} (h : p.isValidChar) : (Char.ofNat p).toNat = p := by
  rw [Char.ofNat, dif_pos h]
  rfl

theorem codePoints_ofPoints (ps : List Nat) : (ofPoints ps).codePoints = ps := by
  rw [ofPoints]
  split
  · rename_i h
    have hv : ∀ p ∈ ps, (Char.toNat ∘ Char.ofNat) p = id p := fun p hp =>
      toNat_ofNat (by simpa using List.all_eq_true.1 h p hp)
    rw [codePoints, String.toList_ofList, List.map_map, List.map_congr_left hv, List.map_id]
  · rfl

@[simp] theorem codePoints_append (a b : LooseText) :
    (a ++ b).codePoints = a.codePoints ++ b.codePoints :=
  codePoints_ofPoints _

example : (ofPoints [0x61, 0xD800]).codePoints = [0x61, 0xD800] := by decide

example : split ',' "a,,b" = [.chars "a", .chars "", .chars "b"] := by decide +kernel

end LooseText

end TrafficIndicator
