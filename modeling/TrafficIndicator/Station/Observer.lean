import TrafficIndicator.Station.Watching
/-!
A listener that records what it is told. It can be given a value at whose delivery it ends
the watch that was started last.
-/
namespace TrafficIndicator

structure Observer where
  seen : List Delivery := []
  watches : List Nat := []
  stopAt : Option Value := none

namespace Observer

variable {τ : Type}

def single? : Delivery → Option Value
  | .connection b => some (.bool b)
  | .lock b => some (.bool b)
  | _ => none

def listen (d : Delivery) : Station.Act τ Observer Unit := do
  Loop.modifyHost fun s => { s with owner := { s.owner with seen := s.owner.seen ++ [d] } }
  let o := (← get).host.owner
  match o.stopAt, single? d, o.watches.getLast? with
  | some v, some w, some id => if v.alike w then Station.unwatch id
  | _, _, _ => pure ()

variable [TimeScale τ]

def watch (setup : Station.Setup τ) (feed : Feed) : Station.Act τ Observer Unit := do
  let id ← Station.watch setup listen feed
  Loop.modifyHost fun s =>
    { s with owner := { s.owner with watches := s.owner.watches ++ [id] } }

omit [TimeScale τ] in
/-- Ends the watch that was started at a position, or the last one. Negative positions count
from the end. -/
def unwatch (position : Option Int) : Station.Act τ Observer Unit := do
  let ids := (← get).host.owner.watches
  let p := position.getD (-1)
  let p := if p < 0 then ids.length + p else p
  if 0 ≤ p then
    match ids[p.toNat]? with
    | none => pure ()
    | some id => Station.unwatch id

def fire (setup : Station.Setup τ) : Entry τ Job → Station.Act τ Observer Unit :=
  Station.fire setup listen fun _ _ => pure ()

end Observer

end TrafficIndicator
