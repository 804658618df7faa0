import TrafficIndicator.Binary64.Basic
import TrafficIndicator.Text.Loose
/-!
The values of settings and tints: what a JSON text can hold, and the equality by which a
changed value is told from an unchanged one. Numbers are compared by what they denote, a
truth value counting as 0 or 1. An undefined number equals nothing, yet two lists or
mappings that hold the very same one there are equal.
-/
namespace TrafficIndicator

inductive Value where
  | null
  | bool (b : Bool)
  | int (n : Int)
  | float (x : Binary64)
  /-- An undefined number; the mark tells one occurrence from another. -/
  | undefined (mark : Nat)
  | text (t : LooseText)
  | list (items : List Value)
  | dict (entries : List (LooseText × Value))
  deriving Repr

def exceeds (limit : Option Nat) (n : Nat) : Bool := limit.any fun m => m < n

inductive Magnitude where
  | finite (q : Rat)
  | infinite (minus : Bool)
  deriving DecidableEq

namespace Value

instance : Inhabited Value := ⟨.null⟩

def ofString (s : String) : Value := .text (.chars s)

def magnitude? : Value → Option Magnitude
  | .bool b => some (.finite (if b then 1 else 0))
  | .int n => some (.finite n)
  | .float x => if x.isInfinite then some (.infinite x.negative) else x.toRat?.map .finite
  | _ => none

def sameMagnitude (v w : Value) : Bool :=
  match v.magnitude?, w.magnitude? with
  | some p, some q => p = q
  | _, _ => false

mutual

def alike : Value → Value → Bool
  | .null, .null => true
  | .text a, .text b => a = b
  | .undefined i, .undefined j => i = j
  | .list xs, .list ys => alikeItems xs ys
  | .dict es, .dict fs => es.length = fs.length && alikeEntries es fs
  | v, w => sameMagnitude v w

def alikeItems : List Value → List Value → Bool
  | [], [] => true
  | x :: xs, y :: ys => alike x y && alikeItems xs ys
  | _, _ => false

def alikeEntries : List (LooseText × Value) → List (LooseText × Value) → Bool
  | [], _ => true
  | (k, v) :: es, fs =>
    (match fs.lookup k with
      | some w => alike v w
      | none => false) && alikeEntries es fs

end

def putEntry (key : LooseText) (v : Value) : List (LooseText × Value) → List (LooseText × Value)
  | [] => [(key, v)]
  | (k, w) :: es => if k = key then (k, v) :: es else (k, w) :: putEntry key v es

/-- The entries that are left when pairs are put one after another. -/
def entriesOf (pairs : List (LooseText × Value)) : List (LooseText × Value) :=
  pairs.foldl (fun es (k, v) => putEntry k v es) []

def isUndefined : Value → Bool
  | .undefined _ => true
  | _ => false

def equal (v w : Value) : Bool := !v.isUndefined && alike v w

end Value

end TrafficIndicator
