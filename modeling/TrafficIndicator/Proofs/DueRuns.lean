import Mathlib.Algebra.Order.BigOperators.Group.Finset
import TrafficIndicator.Proofs.Endings

/-!
A run through what is due takes turns until nothing more is due, and what its jobs queue may be
due as well. Told without a bound on its turns, such a run is the list of the entries whose jobs
it started and the way it ended. A bounded run that has turns enough goes the same way. Where
each job uses up some of what was granted to jobs like it, the run comes to an end, and what was
granted bounds how many of each it starts.
-/
namespace TrafficIndicator.Loop

variable {τ κ ω : Type} [TimeScale τ]

/-- The entries whose jobs a run through what is due starts, and how it ends. A job that halts is
the last one. -/
inductive Drains (fire : Entry τ κ → Act τ κ ω Unit) (now : τ) :
    Loop τ κ ω → List (Entry τ κ) → EStateM.Result Halt (Loop τ κ ω) Unit → Prop where
  | rests {l : Loop τ κ ω} {q : Queue τ κ} (ht : l.queue.takeDue now = (none, q)) :
      Drains fire now l [] (.ok () { l with queue := q })
  | halts {l m : Loop τ κ ω} {e : Entry τ κ} {q : Queue τ κ} {h : Halt}
      (ht : l.queue.takeDue now = (some e, q)) (hf : fire e { l with queue := q } = .error h m) :
      Drains fire now l [e] (.error h m)
  | goes {l m : Loop τ κ ω} {e : Entry τ κ} {q : Queue τ κ} {es : List (Entry τ κ)}
      {r : EStateM.Result Halt (Loop τ κ ω) Unit} (ht : l.queue.takeDue now = (some e, q))
      (hf : fire e { l with queue := q } = .ok () m) (h : Drains fire now m es r) :
      Drains fire now l (e :: es) r

def counted (ran : Nat) :
    EStateM.Result Halt (Loop τ κ ω) Unit → EStateM.Result Halt (Loop τ κ ω) Nat
  | .ok _ m => .ok ran m
  | .error h m => .error h m

variable {fire : Entry τ κ → Act τ κ ω Unit} {now : τ} {l : Loop τ κ ω} {q : Queue τ κ}

theorem runDue_of_none (ht : l.queue.takeDue now = (none, q)) (turns ran : Nat) :
    runDue fire now (turns + 1) ran l = .ok ran { l with queue := q } := by
  have htake : takeDue now l = .ok (l.queue.takeDue now).1
      { l with queue := (l.queue.takeDue now).2 } := rfl
  rw [runDue, bind_of_ok htake, ht]
  rfl

theorem runDue_of_some {e : Entry τ κ} (ht : l.queue.takeDue now = (some e, q))
    (turns ran : Nat) :
    runDue fire now (turns + 1) ran l =
      (fire e >>= fun _ => runDue fire now turns (ran + 1)) { l with queue := q } := by
  have htake : takeDue now l = .ok (l.queue.takeDue now).1
      { l with queue := (l.queue.takeDue now).2 } := rfl
  rw [runDue, bind_of_ok htake, ht]

/-- A bounded run goes the way of the unbounded one if it has more turns than there are jobs to
start. -/
theorem Drains.runDue {es : List (Entry τ κ)} {r : EStateM.Result Halt (Loop τ κ ω) Unit}
    (h : Drains fire now l es r) {turns : Nat} (hturns : es.length < turns) (ran : Nat) :
    runDue fire now turns ran l = counted (ran + es.length) r := by
  induction h generalizing turns ran with
  | rests ht =>
    obtain ⟨turns, rfl⟩ := Nat.exists_eq_succ_of_ne_zero hturns.ne_bot
    exact runDue_of_none ht turns ran
  | @halts l m e q h ht hf =>
    obtain ⟨turns, rfl⟩ := Nat.exists_eq_succ_of_ne_zero hturns.ne_bot
    rw [Nat.succ_eq_add_one, runDue_of_some ht]
    change EStateM.bind (fire e) _ _ = _
    rw [EStateM.bind, hf]
    rfl
  | @goes l m e q es r ht hf h ih =>
    obtain ⟨turns, rfl⟩ := Nat.exists_eq_succ_of_ne_zero hturns.ne_bot
    have hrest := ih (Nat.lt_of_succ_lt_succ hturns) (ran + 1)
    rw [Nat.succ_eq_add_one, runDue_of_some ht, bind_of_ok hf, hrest, List.length_cons,
      Nat.add_assoc, Nat.add_comm 1]

/-- In the states of `P` each kind of entry has an allowance. A job is started only while its
kind has some of it left, and it uses some of it up; none but that of `R` halts it. -/
structure Rationed {ι : Type} [DecidableEq ι] (P : Loop τ κ ω → Prop)
    (R : Halt → Loop τ κ ω → Prop) (fire : Entry τ κ → Act τ κ ω Unit) (now : τ)
    (kind : Entry τ κ → ι) (allowance : Loop τ κ ω → ι → Nat) : Prop where
  granted : ∀ l e q, P l → l.queue.takeDue now = (some e, q) → 0 < allowance l (kind e)
  spends : ∀ l e q, P l → l.queue.takeDue now = (some e, q) →
    EndsIn (fun m => P m ∧ ∀ k, allowance m k + (if kind e = k then 1 else 0) ≤ allowance l k) R
      (fire e { l with queue := q })

variable {ι : Type} [DecidableEq ι] [Fintype ι] {P : Loop τ κ ω → Prop}
  {R : Halt → Loop τ κ ω → Prop} {kind : Entry τ κ → ι} {allowance : Loop τ κ ω → ι → Nat}

theorem sum_lt_of_spent {j : ι} {left granted : ι → Nat}
    (h : ∀ k, left k + (if j = k then 1 else 0) ≤ granted k) :
    ∑ k, left k < ∑ k, granted k := by
  refine Finset.sum_lt_sum (fun k _ => (Nat.le_add_right _ _).trans (h k))
    ⟨j, Finset.mem_univ j, ?_⟩
  have hj := h j
  rw [if_pos rfl] at hj
  exact hj

/-- The run comes to an end, and starts no more jobs of a kind than its allowance. -/
theorem Rationed.drains (h : Rationed P R fire now kind allowance) (hp : P l) :
    ∃ es r, Drains fire now l es r ∧ EndsIn (fun _ => True) R r ∧
      (∀ k, (es.map kind).count k ≤ allowance l k) ∧ es.length ≤ ∑ k, allowance l k := by
  induction hleft : ∑ k, allowance l k using Nat.strong_induction_on generalizing l with
  | _ left ih =>
    subst hleft
    cases ht : l.queue.takeDue now with
    | mk o q =>
      cases o with
      | none => exact ⟨[], _, .rests ht, trivial, fun _ => Nat.zero_le _, Nat.zero_le _⟩
      | some e =>
        have hgranted := h.granted l e q hp ht
        have hspends := h.spends l e q hp ht
        cases hf : fire e { l with queue := q } with
        | error halt m =>
          rw [hf] at hspends
          refine ⟨[e], _, .halts ht hf, hspends, fun k => ?_, ?_⟩
          · rw [List.map_singleton, List.count_singleton]
            split
            · rename_i hk
              rw [← eq_of_beq hk]
              exact hgranted
            · exact Nat.zero_le _
          · exact hgranted.trans_le (Finset.single_le_sum (fun _ _ => Nat.zero_le _)
              (Finset.mem_univ (kind e)))
        | ok u m =>
          rw [hf] at hspends
          obtain ⟨hm, hspent⟩ := hspends
          have hless := sum_lt_of_spent hspent
          obtain ⟨es, r, hdrains, hr, hcount, hlength⟩ := ih _ hless hm rfl
          refine ⟨e :: es, r, .goes ht hf hdrains, hr, fun k => ?_, ?_⟩
          · have hk := hspent k
            have hrest := hcount k
            rw [List.map_cons, List.count_cons]
            simp only [beq_iff_eq]
            omega
          · rw [List.length_cons]
            exact hlength.trans_lt hless

end TrafficIndicator.Loop
