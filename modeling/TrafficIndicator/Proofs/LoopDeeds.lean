import TrafficIndicator.Proofs.SharedLoop
import TrafficIndicator.Session

/-!
What jobs do to the loop that runs them, and what the loop does of its own, is told deed by deed,
the latest first. Jobs queue and cancel other jobs, stop the loop and take their time, and may
fail; the loop takes what is due and sleeps. The jobs of the program do no more than that.
-/
namespace TrafficIndicator

namespace Loop

inductive Deed (τ κ : Type) where
  | onQueue (x : Queue.Event τ κ)
  | stopped
  | slept (seconds : τ)

namespace Deed

variable {τ κ : Type}

def event? : Deed τ κ → Option (Queue.Event τ κ)
  | .onQueue x => some x
  | .stopped => none
  | .slept _ => none

def isSleep : Deed τ κ → Bool
  | .onQueue _ => false
  | .stopped => false
  | .slept _ => true

end Deed

variable {τ κ ω : Type}

def events (ds : List (Deed τ κ)) : List (Queue.Event τ κ) := ds.filterMap Deed.event?

theorem events_append (newer older : List (Deed τ κ)) :
    events (newer ++ older) = events newer ++ events older :=
  List.filterMap_append

variable [TimeScale τ] {finite : τ → Prop} {past : List (Queue.Event τ κ)}
  {l m n : Loop τ κ ω} {ds more : List (Deed τ κ)}

/-- Time goes by: the clock may show anything that is finite afterwards, and the host may have
changed. -/
structure Aside (finite : τ → Prop) (l m : Loop τ κ ω) : Prop where
  queue : m.queue = l.queue
  running : m.running = l.running
  clock : finite m.now

/-- What a job does to the loop that runs it: it queues and cancels jobs, stops the loop and
takes its time. It neither takes a job nor runs the loop. -/
inductive Worked (finite : τ → Prop) (l : Loop τ κ ω) :
    List (Deed τ κ) → Loop τ κ ω → Prop where
  | none : Worked finite l [] l
  | pushes {ds : List (Deed τ κ)} {m : Loop τ κ ω} (h : Worked finite l ds m) (deadline : τ)
      (job : κ) (hd : finite deadline) :
      Worked finite l (.onQueue (.pushed ⟨deadline, m.queue.nextToken, job⟩) :: ds)
        { m with queue := (m.queue.push deadline job).2 }
  | cancels {ds : List (Deed τ κ)} {m : Loop τ κ ω} (h : Worked finite l ds m) (token : Nat) :
      Worked finite l (.onQueue (.cancelled token) :: ds)
        { m with queue := m.queue.cancel token }
  | stops {ds : List (Deed τ κ)} {m : Loop τ κ ω} (h : Worked finite l ds m) :
      Worked finite l (.stopped :: ds) { m with running := false }
  | aside {ds : List (Deed τ κ)} {m n : Loop τ κ ω} (h : Worked finite l ds m)
      (ha : Aside finite m n) : Worked finite l ds n

/-- Jobs that work like this, whether they come to their end or fail, and a sleep that lets time
go by, be it none at all. -/
structure Plain (finite : τ → Prop) (hooks : Hooks τ κ ω) : Prop where
  works : ∀ e l, finite l.now → ∃ ds, Worked finite l ds (after (hooks.fire e) l)
  sleeps : ∀ t l, finite l.now → Aside finite l (after (hooks.sleep t) l)
  rests : ∀ l, finite l.now → Aside finite l (after hooks.idle l)

/-- The clock and all deadlines are finite, and the queue came to be by what the history lists. -/
structure Timely (finite : τ → Prop) (past : List (Queue.Event τ κ)) (l : Loop τ κ ω) : Prop where
  queue : Queue.Past past l.queue
  deadlines : ∀ e ∈ Queue.pushed past, finite e.deadline
  clock : finite l.now

theorem Aside.trans (h : Aside finite l m) (h' : Aside finite m n) : Aside finite l n :=
  ⟨h'.queue.trans h.queue, h'.running.trans h.running, h'.clock⟩

namespace Timely

variable (h : Timely finite past l)

include h

theorem aside (ha : Aside finite l m) : Timely finite past m where
  queue := by
    rw [ha.queue]
    exact h.queue
  deadlines := h.deadlines
  clock := ha.clock

theorem settled : Timely finite past { l with queue := l.queue.settle } :=
  ⟨h.queue.settle, h.deadlines, h.clock⟩

theorem taken {now : τ} {e : Entry τ κ} {q : Queue τ κ} (ht : l.queue.takeDue now = (some e, q)) :
    Timely finite (.taken e :: past) { l with queue := q } :=
  ⟨h.queue.take ht, h.deadlines, h.clock⟩

theorem idle {now : τ} {q : Queue τ κ} (ht : l.queue.takeDue now = (none, q)) :
    Timely finite past { l with queue := q } :=
  ⟨h.queue.idle ht, h.deadlines, h.clock⟩

theorem worked (hw : Worked finite l ds m) : Timely finite (events ds ++ past) m := by
  induction hw with
  | none => exact h
  | pushes hw deadline job hd ih =>
    refine ⟨ih.queue.push deadline job, ?_, ih.clock⟩
    intro e he
    rcases List.mem_cons.mp he with rfl | he
    · exact hd
    · exact ih.deadlines e he
  | cancels hw token ih => exact ⟨ih.queue.cancel token, ih.deadlines, ih.clock⟩
  | stops hw ih => exact ⟨ih.queue, ih.deadlines, ih.clock⟩
  | aside hw ha ih => exact ih.aside ha

end Timely

theorem Worked.running (h : Worked finite l ds m) (hr : l.running = true) :
    m.running = true ∨ .stopped ∈ ds := by
  induction h with
  | none => exact .inl hr
  | pushes _ _ _ _ ih | cancels _ _ ih => exact ih.imp id (List.mem_cons_of_mem _)
  | stops => exact .inr List.mem_cons_self
  | aside _ ha ih =>
    rw [ha.running]
    exact ih

theorem Worked.sleepless (h : Worked finite l ds m) : ds.countP Deed.isSleep = 0 := by
  induction h with
  | none => rfl
  | pushes _ _ _ _ ih | cancels _ _ ih | stops _ ih => exact ih
  | aside _ _ ih => exact ih

variable {hooks : Hooks τ κ ω} {fire : Entry τ κ → Act τ κ ω Unit} {now : τ}
  {r : EStateM.Result Halt (Loop τ κ ω) Unit}

/-- What is done in a run through what is due, and how it ends. A job that fails ends it. -/
inductive Served (finite : τ → Prop) (fire : Entry τ κ → Act τ κ ω Unit) (now : τ) :
    Loop τ κ ω → List (Deed τ κ) → EStateM.Result Halt (Loop τ κ ω) Unit → Prop where
  | rests {l : Loop τ κ ω} {q : Queue τ κ} (ht : l.queue.takeDue now = (none, q)) :
      Served finite fire now l [] (.ok () { l with queue := q })
  | halts {l m : Loop τ κ ω} {e : Entry τ κ} {q : Queue τ κ} {h : Halt} {ds : List (Deed τ κ)}
      (ht : l.queue.takeDue now = (some e, q)) (hf : fire e { l with queue := q } = .error h m)
      (hw : Worked finite { l with queue := q } ds m) :
      Served finite fire now l (ds ++ [.onQueue (.taken e)]) (.error h m)
  | goes {l m : Loop τ κ ω} {e : Entry τ κ} {q : Queue τ κ} {ds more : List (Deed τ κ)}
      {r : EStateM.Result Halt (Loop τ κ ω) Unit}
      (ht : l.queue.takeDue now = (some e, q)) (hf : fire e { l with queue := q } = .ok () m)
      (hw : Worked finite { l with queue := q } ds m) (h : Served finite fire now m more r) :
      Served finite fire now l (more ++ (ds ++ [.onQueue (.taken e)])) r

namespace Served

private theorem timely_turn {e : Entry τ κ} {q : Queue τ κ} (hk : Timely finite past l)
    (ht : l.queue.takeDue now = (some e, q)) (hw : Worked finite { l with queue := q } ds m) :
    Timely finite (events (ds ++ [.onQueue (.taken e)]) ++ past) m := by
  rw [events_append, List.append_assoc]
  exact (hk.taken ht).worked hw

theorem timely (h : Served finite fire now l ds r) (hk : Timely finite past l) :
    EndsIn (Timely finite (events ds ++ past)) (fun _ => Timely finite (events ds ++ past)) r := by
  induction h generalizing past with
  | rests ht => exact hk.idle ht
  | halts ht _ hw => exact timely_turn hk ht hw
  | goes ht _ hw _ ih =>
    have hrest := ih (timely_turn hk ht hw)
    rw [← List.append_assoc, ← events_append] at hrest
    exact hrest

theorem running (h : Served finite fire now l ds r) (hr : l.running = true) :
    EndsIn (fun m => m.running = true ∨ .stopped ∈ ds)
      (fun _ m => m.running = true ∨ .stopped ∈ ds) r := by
  induction h with
  | rests => exact .inl hr
  | halts _ _ hw => exact (hw.running hr).imp id (List.mem_append_left _)
  | @goes l m e q ds more r _ _ hw _ ih =>
    rcases hw.running hr with hm | hstopped
    · have hrest := ih hm
      exact hrest.imp (fun _ h => h.imp id (List.mem_append_left _))
        fun _ _ h => h.imp id (List.mem_append_left _)
    · have hmem : Deed.stopped ∈ more ++ (ds ++ [.onQueue (.taken e)]) :=
        List.mem_append_right _ (List.mem_append_left _ hstopped)
      cases r with
      | ok => exact .inr hmem
      | error => exact .inr hmem

theorem sleepless (h : Served finite fire now l ds r) : ds.countP Deed.isSleep = 0 := by
  induction h with
  | rests => rfl
  | halts _ _ hw =>
    rw [List.countP_append, hw.sleepless]
    rfl
  | goes _ _ hw _ ih =>
    rw [List.countP_append, List.countP_append, ih, hw.sleepless]
    rfl

end Served

end Loop

namespace Panel

open Loop

variable {τ : Type} [TimeScale τ] {l₀ l : Running τ}

def Working (l₀ l : Running τ) : Prop := ∃ ds, Worked (fun _ => True) l₀ ds l

namespace Working

variable (h : Working l₀ l)

include h

theorem aside {m : Running τ} (hq : m.queue = l.queue) (hr : m.running = l.running) :
    Working l₀ m := by
  obtain ⟨ds, hw⟩ := h
  exact ⟨ds, hw.aside ⟨hq, hr, trivial⟩⟩

theorem disarm {ν : Type} [DecidableEq ν] (s : Slots ν) (reaches : Nat → Bool) (kind : ν) :
    Working l₀ { l with queue := (s.disarm reaches kind l.queue).2 } := by
  rw [Slots.disarm]
  split
  · exact h
  · rename_i token _
    dsimp only
    split
    · obtain ⟨ds, hw⟩ := h
      exact ⟨_, hw.cancels token⟩
    · exact h

theorem arm {ν : Type} [DecidableEq ν] (s : Slots ν) (reaches : Nat → Bool) (kind : ν)
    (deadline : τ) (job : Job) :
    Working l₀ { l with queue := (s.arm reaches kind deadline job l.queue).2 } := by
  obtain ⟨ds, hw⟩ := h.disarm s reaches kind
  exact ⟨_, hw.pushes deadline job trivial⟩

end Working

variable {setup : Setup τ}

end Panel

end TrafficIndicator
