import TrafficIndicator.Proofs.Lockstep
import TrafficIndicator.Proofs.LoopDeeds
import TrafficIndicator.Proofs.RoundedTime

/-!
A loop that runs goes from deadline to deadline: it drops what was cancelled, sleeps until the
next deadline and runs what is due by then, whether the clock has reached it or not. The next
deadline is that of an entry that waits, and it is due by the later of itself and the clock; so no
round of the loop comes to nothing, however little the clock moves while the loop sleeps.
-/
namespace TrafficIndicator

/-- The later of the clock and a deadline is never before the deadline. -/
def TimeScale.Meets {τ : Type} [TimeScale τ] (finite : τ → Prop) : Prop :=
  ∀ now deadline, finite now → finite deadline → upTo deadline (later now deadline) = true

/-- The program's own time: only a clock that shows no number at all could miss a deadline. -/
theorem TimeScale.meets_rounded : TimeScale.Meets (fun t : Float => t.isNaN = false) := by
  intro now deadline hnow hdeadline
  change decide (deadline ≤ if decide (now < deadline) then deadline else now) = true
  rw [decide_eq_true_iff]
  split
  · exact Rounded.le_refl hdeadline
  · rename_i hlate
    rw [decide_eq_true_iff] at hlate
    exact (Rounded.not_lt_iff hnow hdeadline).mp hlate

namespace Queue

variable {τ κ : Type}

section Remembered

variable [TimeScale τ] {past : List (Event τ κ)} {q : Queue τ κ} (h : Past past q) {e : Entry τ κ}

include h

theorem Past.waits (hp : e ∈ pushed past) (ht : e ∉ taken past)
    (hw : ¬Withdrawn past e.token) : e ∈ q.live := by
  obtain ⟨w, ha⟩ := h.accounted
  rcases ha.mem_pushed.mp hp with hlive | htaken | hwithdrawn
  · exact hlive
  · contradiction
  · exact absurd ((ha.mem_withdrawn e hp).mp hwithdrawn) hw

end Remembered

end Queue

namespace Loop

variable {τ κ ω : Type} [TimeScale τ] {finite : τ → Prop} {past : List (Queue.Event τ κ)}
  {l m n : Loop τ κ ω} {ds : List (Deed τ κ)} {hooks : Hooks τ κ ω}
  {r : EStateM.Result Halt (Loop τ κ ω) Unit}

/-- A loop looks for the next deadline and waits for it: it goes on at once where that has come
and sleeps once where it has not. Time goes by before it looks at the clock, and before it looks
again. -/
inductive Waited (finite : τ → Prop) (hooks : Hooks τ κ ω) (l : Loop τ κ ω) :
    τ → List (Deed τ κ) → EStateM.Result Halt (Loop τ κ ω) Unit → Prop where
  | goes {k m n : Loop τ κ ω} {deadline : τ} (hb : Aside finite l k)
      (hu : upcoming k = .ok (some (deadline, none)) m) (ha : Aside finite m n) :
      Waited finite hooks l deadline [] (.ok () n)
  | sleeps {k m n p : Loop τ κ ω} {deadline t : τ} (hb : Aside finite l k)
      (hu : upcoming k = .ok (some (deadline, some t)) m) (hs : hooks.sleep t m = .ok () n)
      (ha : Aside finite n p) : Waited finite hooks l deadline [.slept t] (.ok () p)
  | halts {k m n : Loop τ κ ω} {deadline t : τ} {h : Halt} (hb : Aside finite l k)
      (hu : upcoming k = .ok (some (deadline, some t)) m) (hs : hooks.sleep t m = .error h n) :
      Waited finite hooks l deadline [.slept t] (.error h n)

/-- A whole round of a running loop: it waits for the next deadline and runs what is due by then
to the end. -/
inductive Round (finite : τ → Prop) (hooks : Hooks τ κ ω) (l : Loop τ κ ω) :
    List (Deed τ κ) → Loop τ κ ω → Prop where
  | done {m n : Loop τ κ ω} {deadline : τ} {before ds : List (Deed τ κ)}
      (hw : Waited finite hooks l deadline before (.ok () m))
      (hs : Served finite hooks.fire (TimeScale.later m.now deadline) m ds (.ok () n)) :
      Round finite hooks l (ds ++ before) n

/-- The whole rounds of a run up to some state, the latest first, each with what was done in it. -/
inductive Rounds (finite : τ → Prop) (hooks : Hooks τ κ ω) (l : Loop τ κ ω) :
    List (List (Deed τ κ)) → Loop τ κ ω → Prop where
  | none : Rounds finite hooks l [] l
  | more {rounds : List (List (Deed τ κ))} {m n : Loop τ κ ω} {ds : List (Deed τ κ)}
      (h : Rounds finite hooks l rounds m) (hr : m.running = true)
      (hd : Round finite hooks m ds n) : Rounds finite hooks l (ds :: rounds) n

/-- How a run ends after some whole rounds: the loop was stopped, it found nothing left to wait
for, or something failed while it slept or ran what was due. -/
inductive Last (finite : τ → Prop) (hooks : Hooks τ κ ω) (l : Loop τ κ ω) :
    List (Deed τ κ) → EStateM.Result Halt (Loop τ κ ω) Unit → Prop where
  | stopped (hr : l.running = false) : Last finite hooks l [] (.ok () l)
  | idle {k m : Loop τ κ ω} (hr : l.running = true) (hb : Aside finite l k)
      (hu : upcoming k = .ok none m) : Last finite hooks l [] (hooks.idle m)
  | sleepless {m : Loop τ κ ω} {deadline : τ} {ds : List (Deed τ κ)} {h : Halt}
      (hr : l.running = true) (hw : Waited finite hooks l deadline ds (.error h m)) :
      Last finite hooks l ds (.error h m)
  | broken {m n : Loop τ κ ω} {deadline : τ} {before ds : List (Deed τ κ)} {h : Halt}
      (hr : l.running = true) (hw : Waited finite hooks l deadline before (.ok () m))
      (hs : Served finite hooks.fire (TimeScale.later m.now deadline) m ds (.error h n)) :
      Last finite hooks l (ds ++ before) (.error h n)

theorem upcoming_total (l : Loop τ κ ω) :
    ∃ o, upcoming l = .ok o { l with queue := l.queue.settle } ∧
      l.queue.settle.deadline? = o.map Prod.fst := by
  have hnext : nextDeadline l =
      .ok l.queue.settle.deadline? { l with queue := l.queue.settle } := rfl
  rw [upcoming, bind_of_ok hnext]
  cases l.queue.settle.deadline? with
  | none => exact ⟨none, rfl, rfl⟩
  | some deadline => exact ⟨some (deadline, _), rfl, rfl⟩

theorem Aside.upcoming {o : Option (τ × Option τ)} (h : Aside finite l m)
    (hu : Loop.upcoming m = .ok o n) :
    Aside finite { l with queue := l.queue.settle } n ∧
      l.queue.settle.deadline? = o.map Prod.fst := by
  obtain ⟨o', hu', hd⟩ := upcoming_total m
  rw [hu] at hu'
  cases hu'
  rw [h.queue] at hd ⊢
  exact ⟨⟨rfl, h.running, h.clock⟩, hd⟩

namespace Waited

variable {deadline : τ} (h : Waited finite hooks l deadline ds r)

include h

theorem aside (hp : Plain finite hooks) :
    EndsIn (Aside finite { l with queue := l.queue.settle })
      (fun _ => Aside finite { l with queue := l.queue.settle }) r := by
  cases h with
  | goes hb hu ha => exact (hb.upcoming hu).1.trans ha
  | @sleeps k m n p deadline t hb hu hs ha =>
    have hlooked := (hb.upcoming hu).1
    have hslept := hp.sleeps t m hlooked.clock
    rw [after, hs] at hslept
    exact (hlooked.trans hslept).trans ha
  | @halts k m n deadline t h hb hu hs =>
    have hlooked := (hb.upcoming hu).1
    have hslept := hp.sleeps t m hlooked.clock
    rw [after, hs] at hslept
    exact hlooked.trans hslept

theorem events_eq : events ds = [] := by
  cases h <;> rfl

theorem sleeps_le_one : ds.countP Deed.isSleep ≤ 1 := by
  cases h with
  | goes => exact Nat.zero_le 1
  | sleeps | halts => exact Nat.le_refl 1

end Waited

section Running

variable (hp : Plain finite hooks)

include hp

namespace Round

theorem timely (h : Round finite hooks l ds m) (hk : Timely finite past l) :
    Timely finite (events ds ++ past) m := by
  cases h with
  | done hw hs =>
    rw [events_append, hw.events_eq, List.append_nil]
    exact hs.timely (hk.settled.aside (hw.aside hp))

theorem running (h : Round finite hooks l ds m) (hr : l.running = true) :
    m.running = true ∨ .stopped ∈ ds := by
  cases h with
  | @done k n deadline before ds hw hs =>
    have hwaited : Aside finite _ k := hw.aside hp
    have hend : m.running = true ∨ .stopped ∈ ds := hs.running (hwaited.running.trans hr)
    exact hend.imp id (List.mem_append_left _)

omit hp in
theorem sleeps_le_one (h : Round finite hooks l ds m) : ds.countP Deed.isSleep ≤ 1 := by
  cases h with
  | done hw hs =>
    rw [List.countP_append, hs.sleepless, Nat.zero_add]
    exact hw.sleeps_le_one

end Round

variable {rounds : List (List (Deed τ κ))} {last : List (Deed τ κ)}

namespace Rounds

theorem timely (h : Rounds finite hooks l rounds m) (hk : Timely finite past l) :
    Timely finite (events rounds.flatten ++ past) m := by
  induction h with
  | none => exact hk
  | more h hr hd ih =>
    rw [List.flatten_cons, events_append, List.append_assoc]
    exact hd.timely hp ih

theorem running (h : Rounds finite hooks l rounds m) (hr : l.running = true) :
    m.running = true ∨ .stopped ∈ rounds.flatten := by
  induction h with
  | none => exact .inl hr
  | more h hm hd ih =>
    have hend := hd.running hp hm
    rw [List.flatten_cons]
    exact hend.imp id (List.mem_append_left _)

end Rounds

namespace Last

theorem timely (h : Last finite hooks l last r) (hk : Timely finite past l) :
    EndsIn (Timely finite (events last ++ past)) (fun _ => Timely finite (events last ++ past))
      r := by
  cases h with
  | stopped => exact hk
  | @idle k m hr hb hu =>
    have hlooked := (hb.upcoming hu).1
    exact endsIn_iff_after.mpr ((hk.settled.aside hlooked).aside (hp.rests m hlooked.clock))
  | sleepless hr hw =>
    rw [hw.events_eq]
    exact hk.settled.aside (hw.aside hp)
  | broken hr hw hs =>
    rw [events_append, hw.events_eq, List.append_nil]
    exact hs.timely (hk.settled.aside (hw.aside hp))

omit hp in
theorem sleeps_le_one (h : Last finite hooks l last r) : last.countP Deed.isSleep ≤ 1 := by
  cases h with
  | stopped | idle => exact Nat.zero_le 1
  | sleepless hr hw => exact hw.sleeps_le_one
  | broken hr hw hs =>
    rw [List.countP_append, hs.sleepless, Nat.zero_add]
    exact hw.sleeps_le_one

end Last

end Running

omit [TimeScale τ] in
def ended : EStateM.Result Halt (Loop τ κ ω) Unit → EStateM.Result Halt (Loop τ κ ω) Unit
  | .ok _ m => .ok () { m with running := false }
  | .error h m => .error h { m with running := false }

end Loop

inductive Chore where
  | cancels (token : Nat)
  | stops
  | fails
  | rests

namespace Chore

open Loop

def hooks : Hooks Rat Chore Unit where
  fire e :=
    match e.job with
    | .cancels token => Loop.cancel token
    | .stops => Loop.stop
    | .fails => throw .interrupt
    | .rests => pure ()
  sleep _ := pure ()
  idle := pure ()

def four : Queue Rat Chore :=
  (((({} : Queue Rat Chore).push 100 (.cancels 2)).2.push 200 .rests).2.push 300 .stops).2.push 400
    .rests |>.2

def pushed : List (Queue.Event Rat Chore) :=
  [.pushed ⟨400, 4, .rests⟩, .pushed ⟨300, 3, .stops⟩, .pushed ⟨200, 2, .rests⟩,
    .pushed ⟨100, 1, .cancels 2⟩]

def start : Loop Rat Chore Unit := { seconds := 0, queue := four, host := () }

end Chore

end TrafficIndicator
