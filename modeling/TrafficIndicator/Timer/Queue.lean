import TrafficIndicator.Time.Scale
/-!
One-shot jobs in the order in which they fall due. Jobs with one deadline keep the order in
which they were pushed. A cancelled job stays in the queue until it would be looked at;
until then its token is remembered. Main facts: pushing keeps every entry and adds one, and
cancelling takes exactly the entries of a token away from the live ones.
-/
namespace TrafficIndicator

structure Entry (τ κ : Type) where
  deadline : τ
  token : Nat
  job : κ
  deriving Repr

structure Queue (τ κ : Type) where
  entries : List (Entry τ κ) := []
  cancelled : List Nat := []
  nextToken : Nat := 1
  deriving Repr

namespace Queue

variable {τ κ : Type} [TimeScale τ]

def insert (e : Entry τ κ) : List (Entry τ κ) → List (Entry τ κ)
  | [] => [e]
  | x :: xs => if TimeScale.before e.deadline x.deadline then e :: x :: xs else x :: insert e xs

def push (q : Queue τ κ) (deadline : τ) (job : κ) : Nat × Queue τ κ :=
  (q.nextToken,
    { q with entries := insert ⟨deadline, q.nextToken, job⟩ q.entries
             nextToken := q.nextToken + 1 })

omit [TimeScale τ] in
def holds (q : Queue τ κ) (token : Nat) : Bool := q.entries.any fun e => e.token = token

omit [TimeScale τ] in
def cancel (q : Queue τ κ) (token : Nat) : Queue τ κ :=
  if q.holds token && !q.cancelled.contains token then
    { q with cancelled := token :: q.cancelled }
  else q

omit [TimeScale τ] in
def live (q : Queue τ κ) : List (Entry τ κ) :=
  q.entries.filter fun e => !q.cancelled.contains e.token

omit [TimeScale τ] in
def liveCount (q : Queue τ κ) : Nat := q.live.length

def dropCancelled (stop : Entry τ κ → Bool) : List (Entry τ κ) → List Nat →
    List (Entry τ κ) × List Nat
  | [], cancelled => ([], cancelled)
  | e :: es, cancelled =>
    if stop e || !cancelled.contains e.token then (e :: es, cancelled)
    else dropCancelled stop es (cancelled.erase e.token)

omit [TimeScale τ] in
def settle (q : Queue τ κ) : Queue τ κ :=
  let (entries, cancelled) := dropCancelled (fun _ => false) q.entries q.cancelled
  { q with entries := entries, cancelled := cancelled }

omit [TimeScale τ] in
def deadline? (q : Queue τ κ) : Option τ := q.entries.head?.map (·.deadline)

/-- Takes the first live entry that is due, dropping the cancelled ones due before it. -/
def takeDue (q : Queue τ κ) (now : τ) : Option (Entry τ κ) × Queue τ κ :=
  let late (e : Entry τ κ) := !TimeScale.upTo e.deadline now
  let (entries, cancelled) := dropCancelled late q.entries q.cancelled
  match entries with
  | [] => (none, { q with entries := [], cancelled := cancelled })
  | e :: es =>
    if late e then (none, { q with entries := e :: es, cancelled := cancelled })
    else (some e, { q with entries := es, cancelled := cancelled })

theorem mem_insert {e x : Entry τ κ} {es : List (Entry τ κ)} :
    x ∈ insert e es ↔ x = e ∨ x ∈ es := by
  induction es with
  | nil => simp [insert]
  | cons y ys ih =>
    rw [insert]
    split
    · simp
    · rw [List.mem_cons, List.mem_cons, ih]
      exact or_left_comm

theorem mem_push {q : Queue τ κ} {deadline : τ} {job : κ} {e : Entry τ κ} :
    e ∈ (q.push deadline job).2.entries ↔ e = ⟨deadline, q.nextToken, job⟩ ∨ e ∈ q.entries :=
  mem_insert

omit [TimeScale τ] in
theorem mem_live {q : Queue τ κ} {e : Entry τ κ} :
    e ∈ q.live ↔ e ∈ q.entries ∧ e.token ∉ q.cancelled := by
  simp [live]

omit [TimeScale τ] in
theorem mem_live_cancel {q : Queue τ κ} {token : Nat} {e : Entry τ κ} :
    e ∈ (q.cancel token).live ↔ e ∈ q.live ∧ e.token ≠ token := by
  rw [cancel]
  split
  · simp only [mem_live, List.mem_cons, not_or]
    constructor
    · rintro ⟨he, hne, hc⟩
      exact ⟨⟨he, hc⟩, hne⟩
    · rintro ⟨⟨he, hc⟩, hne⟩
      exact ⟨he, hne, hc⟩
  · rename_i h
    refine ⟨fun he => ⟨he, ?_⟩, And.left⟩
    rintro rfl
    obtain ⟨hm, hc⟩ := mem_live.1 he
    exact h (by simpa [holds, hc] using ⟨e, hm, rfl⟩)

end Queue

end TrafficIndicator
