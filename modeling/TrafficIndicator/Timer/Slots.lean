import TrafficIndicator.Timer.Queue
/-!
Slots over a queue: at most one timer of each kind. Arming a kind first disarms it. Whether
a cancellation reaches the queue is told for each token, so that lost cancellations can be
described; a timer that fires late then leaves a newer one of its kind alone. Main facts:
arming a kind makes its new token the one that the slot holds, and neither arming nor
disarming touches another kind.
-/
namespace TrafficIndicator

structure Slots (ν : Type) where
  armed : List (ν × Nat) := []
  deriving Repr

namespace Slots

variable {τ κ ν : Type} [TimeScale τ] [DecidableEq ν]

def token? (s : Slots ν) (kind : ν) : Option Nat := s.armed.lookup kind

def isArmed (s : Slots ν) (kind : ν) : Bool := (s.token? kind).isSome

def erase (s : Slots ν) (kind : ν) : Slots ν := ⟨s.armed.filter fun (k, _) => k ≠ kind⟩

/-- What a timer does to its slot when it fires: it leaves the slot if it is still the one
that the slot holds. -/
def release (s : Slots ν) (kind : ν) (token : Nat) : Slots ν :=
  if s.token? kind = some token then s.erase kind else s

omit [TimeScale τ] in
def disarm (reaches : Nat → Bool) (kind : ν) (s : Slots ν) (q : Queue τ κ) :
    Slots ν × Queue τ κ :=
  match s.token? kind with
  | none => (s, q)
  | some t => (s.erase kind, if reaches t then q.cancel t else q)

def arm (reaches : Nat → Bool) (kind : ν) (deadline : τ) (job : κ) (s : Slots ν)
    (q : Queue τ κ) : Slots ν × Queue τ κ :=
  let (s, q) := s.disarm reaches kind q
  let (token, q) := q.push deadline job
  (⟨s.armed ++ [(kind, token)]⟩, q)

omit [TimeScale τ] in
def disarmAll (reaches : Nat → Bool) (s : Slots ν) (q : Queue τ κ) : Slots ν × Queue τ κ :=
  s.armed.foldl (fun (s, q) (kind, _) => s.disarm reaches kind q) (s, q)

theorem token?_erase_self (s : Slots ν) (kind : ν) : (s.erase kind).token? kind = none := by
  rw [token?, erase, List.lookup_eq_none_iff]
  intro p hp
  have hne : p.1 ≠ kind := of_decide_eq_true (List.mem_filter.1 hp).2
  exact bne_iff_ne.2 hne.symm

theorem token?_erase_of_ne (s : Slots ν) {kind other : ν} (h : other ≠ kind) :
    (s.erase kind).token? other = s.token? other := by
  obtain ⟨armed⟩ := s
  simp only [token?, erase]
  induction armed with
  | nil => rfl
  | cons p ps ih =>
    obtain ⟨k, t⟩ := p
    by_cases hk : k = kind
    · subst hk
      simp only [ne_eq, not_true_eq_false, decide_false, List.filter_cons, Bool.false_eq_true,
        if_false, ih, List.lookup_cons, beq_eq_false_iff_ne.2 h]
    · simp only [ne_eq, hk, not_false_eq_true, decide_true, List.filter_cons, if_true,
        List.lookup_cons, ih]

omit [TimeScale τ] in
theorem token?_disarm (reaches : Nat → Bool) (kind other : ν) (s : Slots ν) (q : Queue τ κ) :
    (s.disarm reaches kind q).1.token? other = if other = kind then none else s.token? other := by
  rw [disarm]
  cases h : s.token? kind with
  | none =>
    by_cases ho : other = kind
    · simp [ho, h]
    · simp [ho]
  | some t =>
    by_cases ho : other = kind
    · simp [ho, token?_erase_self]
    · simp [ho, token?_erase_of_ne s ho]

theorem token?_append (s : Slots ν) (kind other : ν) (token : Nat) :
    (⟨s.armed ++ [(kind, token)]⟩ : Slots ν).token? other =
      (s.token? other).or (if other = kind then some token else none) := by
  simp only [token?, List.lookup_append, List.lookup_cons, List.lookup_nil]
  by_cases h : other = kind
  · simp [h]
  · simp [h, beq_eq_false_iff_ne.2 h]

omit [TimeScale τ] in
theorem nextToken_disarm (reaches : Nat → Bool) (kind : ν) (s : Slots ν) (q : Queue τ κ) :
    (s.disarm reaches kind q).2.nextToken = q.nextToken := by
  rw [disarm]
  split
  · rfl
  · simp only [Queue.cancel]
    split
    · split <;> rfl
    · rfl

theorem token?_arm (reaches : Nat → Bool) (kind other : ν) (deadline : τ) (job : κ)
    (s : Slots ν) (q : Queue τ κ) :
    (s.arm reaches kind deadline job q).1.token? other =
      if other = kind then some q.nextToken else s.token? other := by
  simp only [arm, token?_append, token?_disarm, Queue.push, nextToken_disarm]
  by_cases h : other = kind
  · simp [h]
  · simp [h]

end Slots

end TrafficIndicator
