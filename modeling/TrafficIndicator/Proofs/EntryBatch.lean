import Mathlib.Tactic.Linarith
import TrafficIndicator.Proofs.DueRuns
import TrafficIndicator.Proofs.LoopDeeds
import TrafficIndicator.Proofs.ScriptHistory

/-!
In exact time, callbacks that put off whatever they queue by a positive delay cannot keep a run
through what is due going: while the clock does not go back, what they queue falls due after the
time of the run. So the entries that are due only become fewer, each turn takes one of them, and
what was queued meanwhile is still there when the run ends.
-/
namespace TrafficIndicator

namespace Queue

variable {τ κ : Type} [TimeScale τ] {q r : Queue τ κ} {now : τ}

/-- The entries that are due, those that were cancelled among them. -/
def due (q : Queue τ κ) (now : τ) : List (Entry τ κ) :=
  q.entries.filter fun e => TimeScale.upTo e.deadline now

theorem mem_due {e : Entry τ κ} :
    e ∈ q.due now ↔ e ∈ q.entries ∧ TimeScale.upTo e.deadline now = true :=
  List.mem_filter

theorem due_sublist (q : Queue τ κ) (now : τ) : (q.due now).Sublist q.entries :=
  List.filter_sublist

theorem due_cancel (q : Queue τ κ) (token : Nat) (now : τ) :
    (q.cancel token).due now = q.due now := by
  rw [due, due, entries_cancel]

theorem filter_insert_of_neg {p : Entry τ κ → Bool} {e : Entry τ κ} (hp : p e = false)
    (es : List (Entry τ κ)) : (insert e es).filter p = es.filter p := by
  induction es with
  | nil => simp [insert, hp]
  | cons x xs ih =>
    rw [insert]
    split
    · simp [hp]
    · simp [List.filter_cons, ih]

theorem due_push {deadline : τ} (h : TimeScale.upTo deadline now = false) (job : κ) :
    (q.push deadline job).2.due now = q.due now :=
  filter_insert_of_neg h q.entries

omit [TimeScale τ] in
theorem dropCancelled_split (stop : Entry τ κ → Bool) (es : List (Entry τ κ))
    (cancelled : List Nat) :
    ∃ dropped, es = dropped ++ (dropCancelled stop es cancelled).1 ∧
      ∀ e ∈ dropped, stop e = false := by
  induction es generalizing cancelled with
  | nil => exact ⟨[], rfl, nofun⟩
  | cons e es ih =>
    rw [dropCancelled]
    split
    · exact ⟨[], rfl, nofun⟩
    · rename_i hs
      obtain ⟨dropped, hes, hall⟩ := ih (cancelled.erase e.token)
      rw [Bool.or_eq_true, not_or, Bool.not_eq_true] at hs
      refine ⟨e :: dropped, congrArg (e :: ·) hes, ?_⟩
      intro x hx
      rcases List.mem_cons.mp hx with rfl | hx
      · exact hs.1
      · exact hall x hx

/-- A look for what is due removes entries that are due, from the front. -/
theorem takeDue_split {o : Option (Entry τ κ)} (ht : q.takeDue now = (o, r)) :
    ∃ dropped, q.entries = dropped ++ (o.toList ++ r.entries) ∧
      ∀ e ∈ dropped ++ o.toList, TimeScale.upTo e.deadline now = true := by
  obtain ⟨dropped, hes, hall⟩ :=
    dropCancelled_split (fun e => !TimeScale.upTo e.deadline now) q.entries q.cancelled
  have hdue : ∀ e ∈ dropped, TimeScale.upTo e.deadline now = true := by
    intro e he
    simpa using hall e he
  rw [takeDue] at ht
  generalize dropCancelled (fun e : Entry τ κ => !TimeScale.upTo e.deadline now) q.entries
    q.cancelled = p at ht hes
  obtain ⟨es, cancelled⟩ := p
  cases es with
  | nil =>
    cases ht
    exact ⟨dropped, hes, by simpa using hdue⟩
  | cons e rest =>
    cases hlate : TimeScale.upTo e.deadline now with
    | false =>
      simp only [hlate] at ht
      cases ht
      exact ⟨dropped, hes, by simpa using hdue⟩
    | true =>
      simp only [hlate] at ht
      cases ht
      refine ⟨dropped, hes, ?_⟩
      intro x hx
      rcases List.mem_append.mp hx with hx | hx
      · exact hdue x hx
      · rwa [List.mem_singleton.mp hx]

theorem due_takeDue {o : Option (Entry τ κ)} (ht : q.takeDue now = (o, r)) :
    (o.toList ++ r.due now).Sublist (q.due now) := by
  obtain ⟨dropped, hes, hdue⟩ := takeDue_split ht
  have hself : o.toList.filter (fun e => TimeScale.upTo e.deadline now) = o.toList := by
    refine List.filter_eq_self.mpr fun e he => ?_
    exact hdue e (List.mem_append_right _ he)
  rw [due, due, hes, List.filter_append, List.filter_append, hself]
  exact List.sublist_append_right _ _

theorem mem_of_takeDue {o : Option (Entry τ κ)} (ht : q.takeDue now = (o, r)) {e : Entry τ κ}
    (he : e ∈ q.entries) (hlate : TimeScale.upTo e.deadline now = false) : e ∈ r.entries := by
  obtain ⟨dropped, hes, hdue⟩ := takeDue_split ht
  rw [hes, ← List.append_assoc] at he
  rcases List.mem_append.mp he with he | he
  · rw [hdue e he] at hlate
    cases hlate
  · exact he

end Queue

namespace Loop

open Queue (pushed taken)

variable {κ ω : Type} {now : Rat} {l m n : Loop Rat κ ω} {ds more : List (Deed Rat κ)}
  {fire : Entry Rat κ → Act Rat κ ω Unit}

/-- What a callback does that queues others after positive delays and cancels some. Meanwhile
time goes by, and the host may change. -/
inductive Postponed (l : Loop Rat κ ω) : List (Deed Rat κ) → Loop Rat κ ω → Prop where
  | none : Postponed l [] l
  | later {ds : List (Deed Rat κ)} {m : Loop Rat κ ω} (h : Postponed l ds m) {delay : Rat}
      (hd : 0 < delay) (job : κ) :
      Postponed l (.onQueue (.pushed ⟨m.deadline delay, m.queue.nextToken, job⟩) :: ds)
        { m with queue := (m.queue.push (m.deadline delay) job).2 }
  | cancels {ds : List (Deed Rat κ)} {m : Loop Rat κ ω} (h : Postponed l ds m) (token : Nat) :
      Postponed l (.onQueue (.cancelled token) :: ds) { m with queue := m.queue.cancel token }
  | aside {ds : List (Deed Rat κ)} {m n : Loop Rat κ ω} (h : Postponed l ds m)
      (hq : n.queue = m.queue) (hr : n.running = m.running) (ht : m.now ≤ n.now) :
      Postponed l ds n

/-- A callback that comes to its end and puts off all it queues. -/
def Postpones (x : Act Rat κ ω Unit) : Prop := ∀ l, ∃ ds m, x l = .ok () m ∧ Postponed l ds m

theorem now_lt_deadline {delay : Rat} (h : 0 < delay) (l : Loop Rat κ ω) :
    l.now < l.deadline delay := by
  have hdelay : TimeScale.delay delay = delay := if_pos (decide_eq_true h)
  have hsum : l.deadline delay = l.now + delay := by
    rw [deadline, hdelay]
    rfl
  rw [hsum]
  linarith

theorem upTo_eq_false {a b : Rat} : TimeScale.upTo a b = false ↔ b < a := by
  change decide (a ≤ b) = false ↔ _
  rw [decide_eq_false_iff_not, Rat.not_le]

namespace Postponed

theorem worked (h : Postponed l ds m) : Worked (fun _ => True) l ds m := by
  induction h with
  | none => exact .none
  | later _ hd job ih => exact ih.pushes _ job trivial
  | cancels _ token ih => exact ih.cancels token
  | aside _ hq hr _ ih => exact ih.aside ⟨hq, hr, trivial⟩

theorem now_le (h : Postponed l ds m) : l.now ≤ m.now := by
  induction h with
  | none => exact Rat.le_refl
  | later _ _ _ ih | cancels _ _ ih => exact ih
  | aside _ _ _ ht ih => exact Rat.le_trans ih ht

theorem taken_eq (h : Postponed l ds m) : taken (events ds) = [] := by
  induction h with
  | none => rfl
  | later _ _ _ ih | cancels _ _ ih => exact ih
  | aside _ _ _ _ ih => exact ih

end Postponed

/-- What became of the queue while some deeds were done, all of them by a time that has come:
what was started was due, what was queued is not due by then, and nothing that is not due is
gone. -/
structure Spent (now : Rat) (l : Loop Rat κ ω) (ds : List (Deed Rat κ)) (m : Loop Rat κ ω) :
    Prop where
  clock : now ≤ m.now
  due : ((taken (events ds)).reverse ++ m.queue.due now).Sublist (l.queue.due now)
  added : ∀ e ∈ pushed (events ds), now < e.deadline
  stays : ∀ e, now < e.deadline → e ∈ l.queue.entries ∨ e ∈ pushed (events ds) →
    e ∈ m.queue.entries
  sound : l.queue.Sound → m.queue.Sound
  issued : l.queue.nextToken ≤ m.queue.nextToken ∧
    ∀ e ∈ pushed (events ds), l.queue.nextToken ≤ e.token
  waits : l.queue.Sound → ∀ e, now < e.deadline → e ∈ l.queue.live ∨ e ∈ pushed (events ds) →
    e ∈ m.queue.live ∨ .cancelled e.token ∈ events ds

namespace Spent

theorem refl (h : now ≤ l.now) : Spent now l [] l where
  clock := h
  due := List.Sublist.refl _
  added := nofun
  stays _ _ he := he.resolve_right List.not_mem_nil
  sound h := h
  issued := ⟨Nat.le_refl _, nofun⟩
  waits _ _ _ he := .inl (he.resolve_right List.not_mem_nil)

theorem trans (h : Spent now l ds m) (h' : Spent now m more n) : Spent now l (more ++ ds) n := by
  have hpushed : ∀ e, e ∈ pushed (events (more ++ ds)) ↔
      e ∈ pushed (events more) ∨ e ∈ pushed (events ds) := by
    intro e
    rw [events_append, Queue.pushed_append, List.mem_append]
  refine ⟨h'.clock, ?_, ?_, ?_, fun hs => h'.sound (h.sound hs), ?_, ?_⟩
  · rw [events_append, Queue.taken_append, List.reverse_append, List.append_assoc]
    exact (h'.due.append_left _).trans h.due
  · intro e he
    rcases (hpushed e).mp he with he | he
    · exact h'.added e he
    · exact h.added e he
  · intro e hlate he
    rw [hpushed] at he
    rcases he with he | he | he
    · exact h'.stays e hlate (.inl (h.stays e hlate (.inl he)))
    · exact h'.stays e hlate (.inr he)
    · exact h'.stays e hlate (.inl (h.stays e hlate (.inr he)))
  · refine ⟨h.issued.1.trans h'.issued.1, fun e he => ?_⟩
    rcases (hpushed e).mp he with he | he
    · exact h.issued.1.trans (h'.issued.2 e he)
    · exact h.issued.2 e he
  · intro hs e hlate he
    rw [hpushed] at he
    have honward :
        e ∈ m.queue.live ∨ e ∈ pushed (events more) ∨ .cancelled e.token ∈ events ds := by
      rcases he with he | he | he
      · exact (h.waits hs e hlate (.inl he)).imp_right .inr
      · exact .inr (.inl he)
      · exact (h.waits hs e hlate (.inr he)).imp_right .inr
    rw [events_append, List.mem_append]
    rcases honward with he | he | he
    · exact (h'.waits (h.sound hs) e hlate (.inl he)).imp_right .inl
    · exact (h'.waits (h.sound hs) e hlate (.inr he)).imp_right .inl
    · exact .inr (.inr he)

/-- A job that is queued after a positive delay is not due by a time that has come. -/
theorem later (h : now ≤ l.now) {delay : Rat} (hd : 0 < delay) (job : κ) :
    Spent now l [.onQueue (.pushed ⟨l.deadline delay, l.queue.nextToken, job⟩)]
      { l with queue := (l.queue.push (l.deadline delay) job).2 } := by
  have hlate : now < l.deadline delay := lt_of_le_of_lt h (now_lt_deadline hd l)
  refine ⟨h, ?_, ?_, ?_, fun hs => Queue.sound_push hs _ _, ⟨Nat.le_succ _, ?_⟩, ?_⟩
  · exact (Queue.due_push (upTo_eq_false.mpr hlate) job).symm ▸ List.Sublist.refl _
  · rintro e he
    rw [List.mem_singleton.mp he]
    exact hlate
  · intro e _ he
    exact Queue.mem_push.mpr (he.symm.imp_left List.mem_singleton.mp)
  · intro e he
    rw [List.mem_singleton.mp he]
  · intro hs e _ he
    have hlive := (Queue.live_push hs (l.deadline delay) job).mem_iff (a := e)
    exact .inl (hlive.mpr (List.mem_cons.mpr (he.symm.imp_left List.mem_singleton.mp)))

theorem cancels (h : now ≤ l.now) (token : Nat) :
    Spent now l [.onQueue (.cancelled token)] { l with queue := l.queue.cancel token } := by
  have hnext : (l.queue.cancel token).nextToken = l.queue.nextToken := by
    rw [Queue.cancel]
    split <;> rfl
  have hnone : ∀ e : Entry Rat κ, e ∉ pushed (events [.onQueue (.cancelled token)]) :=
    fun _ => List.not_mem_nil
  refine ⟨h, ?_, fun e he => (hnone e he).elim, ?_, fun hs => Queue.sound_cancel hs token,
    ⟨hnext.ge, fun e he => (hnone e he).elim⟩, ?_⟩
  · exact (Queue.due_cancel l.queue token now).symm ▸ List.Sublist.refl _
  · intro e _ he
    exact (Queue.entries_cancel l.queue token).symm ▸ he.resolve_right List.not_mem_nil
  · intro _ e _ he
    have hlive := he.resolve_right List.not_mem_nil
    by_cases ht : e.token = token
    · exact .inr (List.mem_singleton.mpr (congrArg _ ht))
    · exact .inl (Queue.mem_live_cancel.mpr ⟨hlive, ht⟩)

theorem aside (h : now ≤ l.now) (hq : m.queue = l.queue) (ht : l.now ≤ m.now) :
    Spent now l [] m := by
  have hrefl := refl h
  refine ⟨Rat.le_trans h ht, ?_, nofun, ?_, ?_, ?_, ?_⟩
  · exact hq ▸ hrefl.due
  · exact hq ▸ hrefl.stays
  · exact hq ▸ hrefl.sound
  · exact hq ▸ hrefl.issued
  · exact hq ▸ hrefl.waits

theorem looked {o : Option (Entry Rat κ)} {q : Queue Rat κ} (h : now ≤ l.now)
    (ht : l.queue.takeDue now = (o, q)) :
    Spent now l (o.toList.map fun e => .onQueue (.taken e)) { l with queue := q } := by
  have htaken : Queue.taken (events (o.toList.map fun e => .onQueue (.taken e))) = o.toList := by
    cases o <;> rfl
  have hpushed : pushed (events (o.toList.map fun e => .onQueue (.taken e))) = [] := by
    cases o <;> rfl
  refine ⟨h, ?_, ?_, ?_, ?_, ⟨(Queue.nextToken_takeDue ht).ge, ?_⟩, ?_⟩
  · have hreverse : o.toList.reverse = o.toList := by cases o <;> rfl
    rw [htaken, hreverse]
    exact Queue.due_takeDue ht
  · rw [hpushed]
    exact nofun
  · intro e hlate he
    rw [hpushed] at he
    exact Queue.mem_of_takeDue ht (he.resolve_right List.not_mem_nil) (upTo_eq_false.mpr hlate)
  · intro hs
    cases o with
    | none => exact (Queue.takeDue_none hs ht).1
    | some e => exact (Queue.takeDue_some hs ht).1
  · rw [hpushed]
    exact nofun
  · intro hs e hlate he
    rw [hpushed] at he
    have hlive := he.resolve_right List.not_mem_nil
    refine .inl ?_
    cases o with
    | none =>
      rw [← (Queue.takeDue_none hs ht).2] at hlive
      exact hlive
    | some f =>
      obtain ⟨-, hsplit, hdue, -⟩ := Queue.takeDue_some hs ht
      rw [hsplit] at hlive
      -- what is taken is due, and the entry is not
      rcases List.mem_cons.mp hlive with rfl | hlive
      · rw [upTo_eq_false.mpr hlate] at hdue
        cases hdue
      · exact hlive

end Spent

theorem Postponed.spent (h : Postponed l ds m) (hnow : now ≤ l.now) : Spent now l ds m := by
  induction h with
  | none => exact .refl hnow
  | later _ hd job ih => exact ih.trans (.later ih.clock hd job)
  | cancels _ token ih => exact ih.trans (.cancels ih.clock token)
  | aside _ hq _ ht ih => exact ih.trans (.aside ih.clock hq ht)

/-- A run whose callbacks put off all they queue comes to an end: each turn leaves fewer entries
that are due. -/
theorem served_of_postpones (hnow : now ≤ l.now)
    (hfire : ∀ e ∈ l.queue.due now, Postpones (fire e)) :
    ∃ ds m, Served (fun _ => True) fire now l ds (.ok () m) ∧ Spent now l ds m ∧
      ∀ turns ran, (l.queue.due now).length < turns →
        runDue fire now turns ran l = .ok (ran + (taken (events ds)).length) m := by
  induction hleft : (l.queue.due now).length using Nat.strong_induction_on generalizing l with
  | _ left ih =>
    subst hleft
    cases ht : l.queue.takeDue now with
    | mk o q =>
      have hlooked := Spent.looked hnow ht
      cases o with
      | none =>
        refine ⟨[], _, .rests ht, hlooked, fun turns ran hturns => ?_⟩
        obtain ⟨turns, rfl⟩ := Nat.exists_eq_succ_of_ne_zero hturns.ne_bot
        exact runDue_of_none ht turns ran
      | some e =>
        -- a turn takes one of the entries that are due, and its callback adds none to them
        have hsub : (e :: q.due now).Sublist (l.queue.due now) := hlooked.due
        obtain ⟨ds, m, hf, hdone⟩ := hfire e (hsub.subset List.mem_cons_self) { l with queue := q }
        have hspent : Spent now { l with queue := q } ds m := hdone.spent hnow
        have hdue : (m.queue.due now).Sublist (q.due now) := by
          have hd := hspent.due
          rwa [hdone.taken_eq] at hd
        have hless : (m.queue.due now).length < (l.queue.due now).length :=
          Nat.lt_of_lt_of_le (Nat.lt_succ_of_le hdue.length_le) hsub.length_le
        have hrest : ∀ f ∈ m.queue.due now, Postpones (fire f) := fun f hm =>
          hfire f (hsub.subset (List.mem_cons_of_mem _ (hdue.subset hm)))
        obtain ⟨more, n, hserved, hmore, hruns⟩ := ih _ hless hspent.clock hrest rfl
        refine ⟨_, n, .goes ht hf hdone.worked hserved, (hlooked.trans hspent).trans hmore, ?_⟩
        intro turns ran hturns
        obtain ⟨turns, rfl⟩ := Nat.exists_eq_succ_of_ne_zero hturns.ne_bot
        have hcount : (taken (events (more ++ (ds ++ [.onQueue (.taken e)])))).length =
            (taken (events more)).length + 1 := by
          rw [events_append, events_append, Queue.taken_append, Queue.taken_append, hdone.taken_eq,
            List.length_append]
          rfl
        rw [Nat.succ_eq_add_one, runDue_of_some ht, bind_of_ok hf, hruns turns (ran + 1) (by omega),
          hcount, Nat.add_assoc, Nat.add_comm 1]

/-- In exact time, and while the clock does not go back, a run through what is due whose
callbacks only cancel and queue others after positive delays comes to an end. It starts only
entries that were queued when it began, in their order and none of them twice, answers how many it
started, and leaves all that was queued meanwhile in the queue; where the queue is sound, each of
these still waits unless it was cancelled meanwhile. -/
theorem entry_batch_ends (hnow : now ≤ l.now) (hfire : ∀ e ∈ l.queue.due now, Postpones (fire e)) :
    ∃ ds m, Served (fun _ => True) fire now l ds (.ok () m) ∧
      (∀ turns ran, (l.queue.due now).length < turns →
        runDue fire now turns ran l = .ok (ran + (taken (events ds)).length) m) ∧
      (taken (events ds)).reverse.Sublist l.queue.entries ∧
      (∀ e ∈ pushed (events ds), now < e.deadline ∧ e ∈ m.queue.entries) ∧
      (l.queue.Sound →
        ((taken (events ds)).map Entry.token).Nodup ∧
          (∀ e ∈ pushed (events ds), ∀ f ∈ l.queue.entries, f.token ≠ e.token) ∧
          ∀ e ∈ pushed (events ds), e ∈ m.queue.live ∨ .cancelled e.token ∈ events ds) := by
  obtain ⟨ds, m, hserved, hspent, hruns⟩ := served_of_postpones hnow hfire
  have hstarted : (taken (events ds)).reverse.Sublist l.queue.entries :=
    ((List.sublist_append_left _ _).trans hspent.due).trans (Queue.due_sublist _ _)
  refine ⟨ds, m, hserved, hruns, hstarted, ?_, fun hs => ⟨?_, ?_, ?_⟩⟩
  · intro e he
    have hlate := hspent.added e he
    exact ⟨hlate, hspent.stays e hlate (.inr he)⟩
  · have hdistinct := hs.tidy.distinct.sublist (hstarted.map Entry.token)
    rw [List.map_reverse, List.nodup_reverse] at hdistinct
    exact hdistinct
  · intro e he f hf
    exact Nat.ne_of_lt (Nat.lt_of_lt_of_le (hs.issued f hf) (hspent.issued.2 e he))
  · intro e he
    exact hspent.waits hs e (hspent.added e he) (.inr he)

end Loop

namespace Script

open Loop

def Step.IsMild : Step Rat → Prop
  | .later delay _ _ => 0 < delay
  | .cancel _ => True
  | .moveClock seconds => 0 ≤ seconds
  | _ => False

variable {setup : Setup Rat} {turns depth : Nat}

theorem postponed_perform {fire : Entry Rat (Job Rat) → Act Rat Unit} {s : Step Rat}
    (h : s.IsMild) {l k : Loop Rat (Job Rat) (Host Rat)} {ds : List (Deed Rat (Job Rat))}
    (hk : Postponed l ds k) :
    ∃ more m r, perform setup turns fire s k = .ok r m ∧ Postponed l more m := by
  cases s with
  | later delay name body => exact ⟨_, _, _, rfl, hk.later h _⟩
  | cancel token =>
    by_cases ht : 0 ≤ token
    · exact ⟨_, _, .nothing, by rw [perform, if_pos ht]; rfl, hk.cancels token.toNat⟩
    · exact ⟨_, _, .nothing, by rw [perform, if_neg ht]; rfl, hk⟩
  | moveClock seconds =>
    refine ⟨_, _, .nothing, rfl, hk.aside rfl rfl ?_⟩
    change k.seconds * 1000 ≤ (k.seconds + seconds) * 1000
    have hs : (0 : Rat) ≤ seconds := h
    linarith
  | arm | disarm | disarmAll | isArmed | nextDeadline | now | runDue | run | stop | fail => cases h

theorem postponed_steps {fire : Entry Rat (Job Rat) → Act Rat Unit} {steps : List (Step Rat)}
    (h : ∀ s ∈ steps, s.IsMild) {l k : Loop Rat (Job Rat) (Host Rat)}
    {ds : List (Deed Rat (Job Rat))} (hk : Postponed l ds k) :
    ∃ more m, (steps.forM fun s => do
      let _ ← perform setup turns fire s : Act Rat Unit) k = .ok () m ∧ Postponed l more m := by
  induction steps generalizing ds k with
  | nil => exact ⟨ds, k, rfl, hk⟩
  | cons s steps ih =>
    obtain ⟨hs, hrest⟩ := List.forall_mem_cons.mp h
    obtain ⟨more, m, r, hm, hpm⟩ := postponed_perform hs hk
    obtain ⟨last, n, hn, hpn⟩ := ih hrest hpm
    refine ⟨last, n, ?_, hpn⟩
    have hstep : (do let _ ← perform setup turns fire s : Act Rat Unit) k = .ok () m :=
      bind_of_ok hm
    exact (bind_of_ok hstep).trans hn

theorem postpones_fire {e : Entry Rat (Job Rat)} (h : ∀ s ∈ e.job.body, s.IsMild) :
    Postpones (fire setup turns (depth + 1) e) := by
  intro l
  have hbody : ∀ k : Loop Rat (Job Rat) (Host Rat), k.queue = l.queue → k.running = l.running →
      k.seconds = l.seconds → ∃ ds m, (do
        let now := (← get).now
        modifyHost fun h => { h with fired := h.fired ++ [(e.job.name, now)] }
        e.job.body.forM fun s => do
          let _ ← perform setup turns (fire setup turns depth) s : Act Rat Unit) k = .ok () m ∧
        Postponed l ds m := by
    intro k hq hr hs
    have hnow : l.now ≤ k.now := by
      rw [now, now, hs]
    exact postponed_steps h (Postponed.none.aside hq hr hnow)
  rw [fire]
  cases e.job.kind with
  | none => exact hbody l rfl rfl rfl
  | some kind =>
    exact hbody { l with host := { l.host with slots := l.host.slots.release kind e.token } }
      rfl rfl rfl

def busyJob : Job Rat where
  kind := none
  name := "a"
  body := [.later 3 "again" [], .cancel 2, .moveClock (1 / 1000)]

def loopOfFive : Loop Rat (Job Rat) (Host Rat) where
  seconds := 1 / 100
  queue.entries := [⟨5, 1, busyJob⟩, ⟨5, 2, bareJob none "b"⟩, ⟨6, 3, bareJob none "c"⟩,
    ⟨7, 4, bareJob (some "tick") "d"⟩, ⟨20, 5, bareJob none "e"⟩]
  queue.cancelled := [3]
  queue.nextToken := 6
  host := {}

/-- Two jobs run, one of them in a slot; the job that was queued meanwhile waits. -/
theorem entry_batch_ends_of_five :
    (10 : Rat) ≤ loopOfFive.now ∧
      (∀ e ∈ loopOfFive.queue.due 10, Postpones (fire { slept := id } 1 1 e)) ∧
      loopOfFive.queue.Sound ∧
      ∃ ds m, Served (fun _ => True) (fire { slept := id } 1 1) 10 loopOfFive ds (.ok () m) ∧
        runDue (fire { slept := id } 1 1) 10 5 0 loopOfFive = .ok 2 m ∧
        (Queue.taken (events ds)).length = 2 ∧
        m.host.fired.map Prod.fst = [.chars "a", .chars "d"] ∧
        m.queue.live.map Entry.token = [6, 5] ∧
        ∀ e ∈ Queue.pushed (events ds), e ∈ m.queue.live ∨ .cancelled e.token ∈ events ds := by
  have hnow : (10 : Rat) ≤ loopOfFive.now := by decide +kernel
  have hfire : ∀ e ∈ loopOfFive.queue.due 10, Postpones (fire { slept := id } 1 1 e) := by
    intro e he
    refine postpones_fire fun s hs => ?_
    have hmem := (Queue.mem_due.mp he).1
    simp only [loopOfFive, List.mem_cons, List.not_mem_nil, or_false] at hmem
    rcases hmem with rfl | rfl | rfl | rfl | rfl
    · simp only [busyJob, List.mem_cons, List.not_mem_nil, or_false] at hs
      rcases hs with rfl | rfl | rfl
      · exact (by decide +kernel : (0 : Rat) < 3)
      · trivial
      · exact (by decide +kernel : (0 : Rat) ≤ 1 / 1000)
    all_goals exact absurd hs List.not_mem_nil
  have hsound : loopOfFive.queue.Sound := by
    refine ⟨⟨by decide, by decide, ?_⟩, by decide⟩
    intro t ht
    obtain rfl := List.mem_singleton.mp ht
    exact ⟨⟨6, 3, bareJob none "c"⟩, by simp [loopOfFive], rfl⟩
  obtain ⟨ds, m, hserved, hruns, -, -, hwell⟩ := entry_batch_ends hnow hfire
  have hrun := hruns 5 0 (by decide +kernel)
  have hcount : (match runDue (fire { slept := id } 1 1) 10 5 0 loopOfFive with
      | .ok ran l => (ran, l.host.fired.map Prod.fst, l.queue.live.map Entry.token)
      | .error _ _ => (0, [], [])) = (2, [.chars "a", .chars "d"], [6, 5]) := by
    decide +kernel
  rw [hrun] at hcount
  obtain ⟨htwo, hrest⟩ := Prod.mk.inj hcount
  obtain ⟨hfired, hlive⟩ := Prod.mk.inj hrest
  rw [htwo] at hrun
  rw [Nat.zero_add] at htwo
  exact ⟨hnow, hfire, hsound, ds, m, hserved, hrun, htwo, hfired, hlive, (hwell hsound).2.2⟩

end Script

end TrafficIndicator
