import TrafficIndicator.Binary64.Basic
import TrafficIndicator.Fault
import TrafficIndicator.Value.Basic
/-!
Reading of JSON texts. Beside the standard form the names of the undefined and the infinite
numbers are accepted. A reader has limits on the digits of an integer and on how deep values
lie in one another; a text that is no JSON is told from one that goes over a limit, which is
reported as soon as it is met.
-/
namespace TrafficIndicator.Json

inductive Failure where
  | malformed
  | numeralTooLong (digits : Nat)
  | tooDeep
  deriving DecidableEq, Repr

structure Limits where
  digits : Option Nat := some digitLimit
  /-- How many lists and objects may lie in one another. -/
  depth : Option Nat := none
  deriving Repr

def isSpace (c : Char) : Bool := c = ' ' || c = '\t' || c = '\n' || c = '\r'

def skipSpace (cs : List Char) : List Char := cs.dropWhile isSpace

def hexValue? (c : Char) : Option Nat :=
  if '0' ≤ c ∧ c ≤ '9' then some (c.toNat - 48)
  else if 'a' ≤ c ∧ c ≤ 'f' then some (c.toNat - 87)
  else if 'A' ≤ c ∧ c ≤ 'F' then some (c.toNat - 55)
  else none

def shortEscape? : Char → Option Char
  | '"' => some '"'
  | '\\' => some '\\'
  | '/' => some '/'
  | 'b' => some '\x08'
  | 'f' => some '\x0c'
  | 'n' => some '\n'
  | 'r' => some '\r'
  | 't' => some '\t'
  | _ => none

def codeUnit? (a b c d : Char) : Option Nat := do
  return ((← hexValue? a) * 16 + (← hexValue? b)) * 256 +
    (← hexValue? c) * 16 + (← hexValue? d)

def scanText : List Char → Option (List Nat × List Char)
  | [] => none
  | '"' :: cs => some ([], cs)
  | '\\' :: 'u' :: a :: b :: c :: d :: cs => do
    let unit ← codeUnit? a b c d
    let (ps, rest) ← scanText cs
    some (unit :: ps, rest)
  | '\\' :: e :: cs => do
    let c ← shortEscape? e
    let (ps, rest) ← scanText cs
    some (c.toNat :: ps, rest)
  | c :: cs =>
    if c.toNat < 32 then none
    else (scanText cs).map fun (ps, rest) => (c.toNat :: ps, rest)

def joinSurrogates : List Nat → List Nat
  | [] => []
  | [p] => [p]
  | p :: q :: ps =>
    if 0xD800 ≤ p ∧ p < 0xDC00 ∧ 0xDC00 ≤ q ∧ q < 0xE000 then
      (0x10000 + (p - 0xD800) * 0x400 + (q - 0xDC00)) :: joinSurrogates ps
    else p :: joinSurrogates (q :: ps)

/-- A text whose opening quote has been read, and what follows it. -/
def text (cs : List Char) : Except Failure (LooseText × List Char) :=
  match scanText cs with
  | none => .error .malformed
  | some (ps, rest) => .ok (LooseText.ofPoints (joinSurrogates ps), rest)

def digitsIn (cs : List Char) : List Char := cs.takeWhile Char.isDigit

def digitValues (cs : List Char) : List Nat := cs.map fun c => c.toNat - 48

def fractionPart (cs : List Char) : List Char × List Char :=
  match cs with
  | '.' :: rest =>
    let ds := digitsIn rest
    if ds = [] then ([], cs) else (ds, rest.drop ds.length)
  | _ => ([], cs)

def exponentPart (cs : List Char) : Option Int × List Char :=
  match cs with
  | e :: rest =>
    if e = 'e' ∨ e = 'E' then
      let (minus, body) := Text.signed rest
      let ds := digitsIn body
      let n := Text.ofDigits (digitValues ds)
      if ds = [] then (none, cs) else (some (if minus then -(n : Int) else n), body.drop ds.length)
    else (none, cs)
  | [] => (none, cs)

/-- A number without its sign. It is an integer unless it has a fraction or an exponent. -/
def number (limits : Limits) (minus : Bool) (cs : List Char) : Except Failure (Value × List Char) :=
  let whole := match cs with
    | '0' :: _ => ['0']
    | _ => digitsIn cs
  if whole = [] then .error .malformed
  else
    let (fraction, rest) := fractionPart (cs.drop whole.length)
    let (exponent, rest) := exponentPart rest
    if fraction = [] ∧ exponent = none then
      if exceeds limits.digits whole.length then .error (.numeralTooLong whole.length)
      else
        let n := Text.ofDigits (digitValues whole)
        .ok (.int (if minus then -(n : Int) else n), rest)
    else
      let m := Text.ofDigits (digitValues (whole ++ fraction))
      .ok (.float (Binary64.ofDecimal minus m (exponent.getD 0 - fraction.length)), rest)

/-- The undefined number of a JSON text, the same wherever it is written. -/
def undefined : Value := .undefined 0

def named : List (String × Value) :=
  [("null", .null), ("true", .bool true), ("false", .bool false), ("NaN", undefined),
   ("Infinity", .float (.infinity false)), ("-Infinity", .float (.infinity true))]

def name? (cs : List Char) : Option (Value × List Char) :=
  named.findSome? fun (name, v) =>
    if name.toList.isPrefixOf cs then some (v, cs.drop name.length) else none

mutual

/-- The value at the start of a text, inside of `depth` others. An opening bracket uses up two
calls, and each other call uses up a character, so twice the length of the text bounds their
number. -/
def value (limits : Limits) : Nat → Nat → List Char → Except Failure (Value × List Char)
  | 0, _, _ => .error .malformed
  | _ + 1, _, [] => .error .malformed
  | turns + 1, depth, c :: cs =>
    if c = '"' then do
      let (t, rest) ← text cs
      .ok (.text t, rest)
    else if c = '[' then
      if exceeds limits.depth (depth + 1) then .error .tooDeep
      else match skipSpace cs with
        | ']' :: rest => .ok (.list [], rest)
        | rest => items limits turns (depth + 1) [] rest
    else if c = '\x7b' then
      if exceeds limits.depth (depth + 1) then .error .tooDeep
      else match skipSpace cs with
        | '\x7d' :: rest => .ok (.dict [], rest)
        | rest => entries limits turns (depth + 1) [] rest
    else match name? (c :: cs) with
      | some found => .ok found
      | none => if c = '-' then number limits true cs else number limits false (c :: cs)

def items (limits : Limits) :
    Nat → Nat → List Value → List Char → Except Failure (Value × List Char)
  | 0, _, _, _ => .error .malformed
  | turns + 1, depth, earlier, cs => do
    let (v, rest) ← value limits turns depth cs
    match skipSpace rest with
    | ']' :: rest => .ok (.list (v :: earlier).reverse, rest)
    | ',' :: rest => items limits turns depth (v :: earlier) (skipSpace rest)
    | _ => .error .malformed

def entries (limits : Limits) :
    Nat → Nat → List (LooseText × Value) → List Char → Except Failure (Value × List Char)
  | 0, _, _, _ => .error .malformed
  | turns + 1, depth, earlier, cs => do
    match cs with
    | '"' :: cs =>
      let (key, rest) ← text cs
      match skipSpace rest with
      | ':' :: rest =>
        let (v, rest) ← value limits turns depth (skipSpace rest)
        let now := Value.putEntry key v earlier
        match skipSpace rest with
        | '\x7d' :: rest => .ok (.dict now, rest)
        | ',' :: rest => entries limits turns depth now (skipSpace rest)
        | _ => .error .malformed
      | _ => .error .malformed
    | _ => .error .malformed

end

def read (cs : List Char) (limits : Limits := {}) : Except Failure Value := do
  let (v, rest) ← value limits (2 * cs.length + 2) 0 (skipSpace cs)
  if skipSpace rest = [] then .ok v else .error .malformed

end TrafficIndicator.Json
