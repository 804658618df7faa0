import TrafficIndicator.Log.Notice
import TrafficIndicator.Rate.Label
import TrafficIndicator.Rate.Sampler
/-!
The state of an indicator, what it is told and what it asks for. A reaction is the state
after an event and the requests made on the way, in order, each with the state in which it was
made; one that faults stops there and keeps all of them.
-/
namespace TrafficIndicator

inductive Command where
  | text (label : Label)
  | icon (d : Direction)
  | tint (color : Value)
  | visible (shown : Bool)

structure Rendered where
  text : Option Label := none
  icon : Option Direction := none
  tint : Value := .null
  visible : Option Bool := none

inductive TimerKind where
  | tick
  | refresh
  deriving DecidableEq, Repr

inductive Request (τ : Type) where
  | send (c : Command)
  | arm (kind : TimerKind) (delay : τ)
  | disarm (kind : TimerKind)
  | note (n : Notice τ)

def Request.command? {τ : Type} : Request τ → Option Command
  | .send c => some c
  | _ => none

inductive Delivery where
  | setting (key : LooseText) (value : Value)
  | connection (available : Bool)
  | tint (color : Value) (pinned : Bool)
  | lock (showing : Bool)

structure Indicator (τ : Type) where
  settings : Settings := {}
  attached : Bool := false
  connected : Bool := true
  locked : Bool := false
  sample : RateSample := .idle
  tint : Value := .null
  /-- A pinned tint is kept against tints that are not pinned themselves. -/
  pinned : Bool := false
  rendered : Rendered := {}
  sampler : Sampler τ
  /-- How many lists and mappings may lie in one another in the value of a setting. -/
  nesting : Option Nat := none

structure Reaction (τ : Type) where
  state : Indicator τ
  /-- The requests, each with the state of the indicator at the time. -/
  steps : List (Indicator τ × Request τ) := []
  fault : Option Fault := none

namespace Reaction

variable {τ : Type}

def requests (r : Reaction τ) : List (Request τ) := r.steps.map Prod.snd

def andThen (r : Reaction τ) (next : Indicator τ → Reaction τ) : Reaction τ :=
  match r.fault with
  | some _ => r
  | none =>
    let s := next r.state
    { s with steps := r.steps ++ s.steps }

def commands (r : Reaction τ) : List Command := r.requests.filterMap Request.command?

theorem andThen_of_some {r : Reaction τ} {f : Fault} (h : r.fault = some f)
    (next : Indicator τ → Reaction τ) : r.andThen next = r := by
  simp [andThen, h]

theorem andThen_of_none {r : Reaction τ} (h : r.fault = none) (next : Indicator τ → Reaction τ) :
    r.andThen next =
      ⟨(next r.state).state, r.steps ++ (next r.state).steps, (next r.state).fault⟩ := by
  simp [andThen, h]

theorem requests_andThen {r : Reaction τ} (h : r.fault = none) (next : Indicator τ → Reaction τ) :
    (r.andThen next).requests = r.requests ++ (next r.state).requests := by
  rw [andThen_of_none h]
  exact List.map_append

theorem commands_andThen {r : Reaction τ} (h : r.fault = none) (next : Indicator τ → Reaction τ) :
    (r.andThen next).commands = r.commands ++ (next r.state).commands := by
  rw [commands, requests_andThen h]
  exact List.filterMap_append

end Reaction

end TrafficIndicator
