import TrafficIndicator.Proofs.QueueHistory
import TrafficIndicator.Proofs.TimerSlots

/-!
Two loops whose queues differ in nothing but cancelled entries and the numbers of tokens run
alike: what is due in one is due in the other, with the same deadline and the same job. A
relation of two states that every activity keeps, while both runs answer the same or halt for
the same reason, is kept as the loops run on. Times are assumed to compare, since in a queue
that is not in order a cancelled entry can hide what is due behind it.
-/
namespace TrafficIndicator

namespace Queue

variable {τ κ : Type}

def work (e : Entry τ κ) : τ × κ := (e.deadline, e.job)

def works (q : Queue τ κ) : List (τ × κ) := q.live.map work

variable {q r : Queue τ κ}

theorem works_filter (q : Queue τ κ) (p : κ → Bool) :
    (q.live.filter fun e => p e.job).map work = q.works.filter fun w => p w.2 := by
  rw [works, List.filter_map]
  rfl

theorem head_live_of_settle (h : q.Sound) {e : Entry τ κ} {es : List (Entry τ κ)}
    (hes : q.settle.entries = e :: es) : e.token ∉ q.settle.cancelled := by
  have hd := dropped_dropCancelled (fun _ => false) h.tidy
  have hfront := hd.front e (congrArg List.head? hes)
  rcases hfront with hstop | hlive
  · cases hstop
  · exact hlive

theorem deadline?_settle (h : q.Sound) : q.settle.deadline? = q.works.head?.map Prod.fst := by
  rw [works, ← live_settle h, live, deadline?]
  cases hes : q.settle.entries with
  | nil => rfl
  | cons e es =>
    have hfirst := head_live_of_settle h hes
    rw [List.filter_cons_of_pos (by simpa using hfirst)]
    rfl

section Ordered

variable [TimeScale τ] {finite : τ → Prop} (ho : TimeScale.Orders finite)

theorem insert_before {e : Entry τ κ} {es : List (Entry τ κ)}
    (h : ∀ f ∈ es, TimeScale.before e.deadline f.deadline = true) : insert e es = e :: es := by
  cases es with
  | nil => rfl
  | cons x xs => rw [insert, if_pos (h x List.mem_cons_self)]

theorem work_insert {e f : Entry τ κ} {es fs : List (Entry τ κ)} (he : work e = work f)
    (h : es.map work = fs.map work) : (insert e es).map work = (insert f fs).map work := by
  induction es generalizing fs with
  | nil =>
    cases List.map_eq_nil_iff.mp h.symm
    simp [insert, he]
  | cons x xs ih =>
    cases fs with
    | nil => cases h
    | cons y ys =>
      obtain ⟨hxy, hrest⟩ := List.cons.inj h
      have hb : TimeScale.before e.deadline x.deadline = TimeScale.before f.deadline y.deadline :=
        congrArg₂ (fun a b : τ × κ => TimeScale.before a.1 b.1) he hxy
      rw [insert, insert, hb]
      split
      · simp [he, hxy, hrest]
      · simp [hxy, ih hrest]

include ho

/-- Leaving entries out of a queue that is in order does not change where others go. -/
theorem filter_insert {e : Entry τ κ} {es : List (Entry τ κ)} (h : Sorted finite es)
    (he : finite e.deadline) {p : Entry τ κ → Bool} (hp : p e = true) :
    (insert e es).filter p = insert e (es.filter p) := by
  induction es with
  | nil => simp [insert, hp]
  | cons x xs ih =>
    have hxs := ih (h.sublist (List.sublist_cons_self x xs))
    cases hb : TimeScale.before e.deadline x.deadline with
    | true =>
      have hall := h.before_all ho he hb
      rw [insert_before hall, List.filter_cons_of_pos hp,
        insert_before fun f hf => hall f (List.mem_of_mem_filter hf)]
    | false =>
      have hinsert : ∀ ys : List (Entry τ κ), insert e (x :: ys) = x :: insert e ys :=
        fun ys => if_neg (by simp [hb])
      rw [hinsert]
      cases hx : p x with
      | true => rw [List.filter_cons_of_pos hx, List.filter_cons_of_pos hx, hinsert, hxs]
      | false =>
        have hneg : ¬ p x = true := by simp [hx]
        rw [List.filter_cons_of_neg hneg, List.filter_cons_of_neg hneg, hxs]

theorem works_push (hq : q.Sound) (hr : r.Sound) (hsq : Sorted finite q.entries)
    (hsr : Sorted finite r.entries) (h : q.works = r.works) {deadline : τ}
    (hf : finite deadline) (job : κ) :
    (q.push deadline job).2.works = (r.push deadline job).2.works := by
  have hlive : ∀ {q : Queue τ κ}, q.Sound → Sorted finite q.entries →
      (q.push deadline job).2.live = insert ⟨deadline, q.nextToken, job⟩ q.live := by
    intro q hq hs
    have hn : q.nextToken ∉ q.cancelled := fun hc => Nat.lt_irrefl _ (hq.cancelled_issued hc)
    have hwaits : (!q.cancelled.contains q.nextToken) = true := by simpa using hn
    exact filter_insert ho hs hf hwaits
  rw [works, works, hlive hq hsq, hlive hr hsr]
  exact work_insert rfl h

theorem works_take (hq : q.Sound) (hr : r.Sound) (hsr : Sorted finite r.entries)
    (h : q.works = r.works) {now : τ} (hn : finite now) {e : Entry τ κ} {q' : Queue τ κ}
    (ht : q.takeDue now = (some e, q')) :
    ∃ f r', r.takeDue now = (some f, r') ∧ work f = work e ∧ q'.works = r'.works := by
  obtain ⟨-, hl, hdue, -⟩ := takeDue_some hq ht
  rw [works, hl, List.map_cons] at h
  cases hr' : r.takeDue now with
  | mk o r' =>
    cases o with
    | none =>
      obtain ⟨-, hlr⟩ := takeDue_none hr hr'
      have hlate := late_of_takeDue ho hn (hsr.sublist (takeDue_suffix hr hr').sublist) hr'
      have hmem : work e ∈ r.live.map work := by
        rw [← works, ← h]
        exact List.mem_cons_self
      obtain ⟨f, hf, hwork⟩ := List.mem_map.mp hmem
      have hfdue : TimeScale.upTo f.deadline now = true := by
        rw [show f.deadline = e.deadline from congrArg Prod.fst hwork]
        exact hdue
      rw [← hlr] at hf
      exact absurd ((hlate f hf).symm.trans hfdue) Bool.false_ne_true
    | some f =>
      obtain ⟨-, hlr, -, -⟩ := takeDue_some hr hr'
      rw [works, hlr, List.map_cons] at h
      obtain ⟨hwork, hrest⟩ := List.cons.inj h
      exact ⟨f, r', rfl, hwork.symm, hrest⟩

theorem works_idle (hq : q.Sound) (hr : r.Sound) (hsq : Sorted finite q.entries)
    (h : q.works = r.works) {now : τ} (hn : finite now) {q' : Queue τ κ}
    (ht : q.takeDue now = (none, q')) :
    ∃ r', r.takeDue now = (none, r') ∧ q'.works = r'.works := by
  cases hr' : r.takeDue now with
  | mk o r' =>
    cases o with
    | none =>
      refine ⟨r', rfl, ?_⟩
      rw [works, works, (takeDue_none hq ht).2, (takeDue_none hr hr').2]
      exact h
    | some f =>
      obtain ⟨e, _, htaken, -, -⟩ := works_take ho hr hq hsq h.symm hn hr'
      cases ht.symm.trans htaken

end Ordered

end Queue

namespace Slots

variable {τ κ ν : Type} [DecidableEq ν] {kindOf : κ → Option ν} {s : Slots ν} {q : Queue τ κ}

theorem works_disarm (hq : q.Sound) (h : Backed kindOf s q) (kind : ν) :
    (s.disarm (fun _ => true) kind q).2.works =
      q.works.filter fun w => kindOf w.2 ≠ some kind := by
  have hlive : (s.disarm (fun _ => true) kind q).2.live =
      q.live.filter fun e => kindOf e.job ≠ some kind := by
    rw [disarm]
    cases ht : s.token? kind with
    | none =>
      symm
      refine List.filter_eq_self.mpr fun e he => decide_eq_true fun hk => ?_
      cases ht.symm.trans (h.held e he kind hk)
    | some t =>
      obtain ⟨f, hf, rfl, hfk⟩ := h.queued kind t ht
      refine (Queue.live_cancel q _).trans (List.filter_congr fun e he => ?_)
      refine decide_eq_decide.mpr (not_congr ⟨fun hef => ?_, fun hk => ?_⟩)
      · rw [Queue.live_unique hq he hf hef, hfk]
      · exact Option.some.inj ((h.held e he kind hk).symm.trans ht)
  rw [Queue.works, hlive]
  exact Queue.works_filter q fun job => kindOf job ≠ some kind

theorem works_arm [TimeScale τ] {finite : τ → Prop} (ho : TimeScale.Orders finite)
    {s' : Slots ν} {r : Queue τ κ} (hq : q.Sound) (hr : r.Sound)
    (hsq : Queue.Sorted finite q.entries)
    (hsr : Queue.Sorted finite r.entries) (h : Backed kindOf s q) (h' : Backed kindOf s' r)
    (hw : q.works = r.works) (kind : ν) {deadline : τ} (hf : finite deadline) (job : κ) :
    (s.arm (fun _ => true) kind deadline job q).2.works =
      (s'.arm (fun _ => true) kind deadline job r).2.works := by
  refine Queue.works_push ho (sound_disarm hq _ kind) (sound_disarm hr _ kind) ?_ ?_ ?_ hf job
  · rwa [entries_disarm]
  · rwa [entries_disarm]
  · rw [works_disarm hq h, works_disarm hr h', hw]

end Slots

namespace Loop

variable {τ κ ω α β γ : Type} {E : Loop τ κ ω → Loop τ κ ω → Prop}

inductive Alike (E : Loop τ κ ω → Loop τ κ ω → Prop) :
    EStateM.Result Halt (Loop τ κ ω) α → EStateM.Result Halt (Loop τ κ ω) α → Prop where
  | ok (a : α) {l m : Loop τ κ ω} (h : E l m) : Alike E (.ok a l) (.ok a m)
  | error (e : Halt) {l m : Loop τ κ ω} (h : E l m) : Alike E (.error e l) (.error e m)

def Lockstep (E : Loop τ κ ω → Loop τ κ ω → Prop) (x : Act τ κ ω α) : Prop :=
  ∀ l m, E l m → Alike E (x l) (x m)

theorem Alike.after {x y : Act τ κ ω α} {l m : Loop τ κ ω} (h : Alike E (x l) (y m)) :
    E (after x l) (after y m) := by
  rw [Loop.after, Loop.after]
  generalize x l = r at h
  generalize y m = r' at h
  cases h with
  | ok a h => exact h
  | error e h => exact h

theorem alike_bind {x y : Act τ κ ω α} {f : α → Act τ κ ω β} {l m : Loop τ κ ω}
    (h : Alike E (x l) (y m)) (hf : ∀ a, Lockstep E (f a)) :
    Alike E ((x >>= f) l) ((y >>= f) m) := by
  change Alike E (EStateM.bind x f l) (EStateM.bind y f m)
  rw [EStateM.bind, EStateM.bind]
  generalize x l = r at h
  generalize y m = r' at h
  cases h with
  | ok a h => exact hf a _ _ h
  | error e h => exact .error e h

theorem lockstep_pure (a : α) : Lockstep E (pure a : Act τ κ ω α) := fun _ _ h => .ok a h

theorem lockstep_throw (e : Halt) : Lockstep E (throw e : Act τ κ ω α) := fun _ _ h => .error e h

theorem lockstep_bind {x : Act τ κ ω α} {f : α → Act τ κ ω β} (hx : Lockstep E x)
    (hf : ∀ a, Lockstep E (f a)) : Lockstep E (x >>= f) :=
  fun l m h => alike_bind (hx l m h) hf

theorem lockstep_get {f : Loop τ κ ω → Act τ κ ω α} (hr : ∀ l m, E l m → f l = f m)
    (hf : ∀ l, Lockstep E (f l)) : Lockstep E (get >>= f) := by
  intro l m h
  rw [bind_get, bind_get, ← hr l m h]
  exact hf l l m h

theorem lockstep_modify {f : Loop τ κ ω → Loop τ κ ω} (h : ∀ l m, E l m → E (f l) (f m)) :
    Lockstep E (modify f : Act τ κ ω PUnit) :=
  fun l m hlm => Alike.ok PUnit.unit (h l m hlm)

theorem lockstep_ite {c : Prop} [Decidable c] {x y : Act τ κ ω α} (hx : Lockstep E x)
    (hy : Lockstep E y) : Lockstep E (if c then x else y) := by
  split
  · exact hx
  · exact hy

theorem lockstep_elim {o : Option γ} {f : γ → Act τ κ ω PUnit} (h : ∀ c, Lockstep E (f c)) :
    Lockstep E (o.elim (pure ()) f) := by
  cases o with
  | none => exact lockstep_pure _
  | some c => exact h c

theorem lockstep_forM {f : γ → Act τ κ ω PUnit} (xs : List γ) (h : ∀ x, Lockstep E (f x)) :
    Lockstep E (xs.forM f) := by
  induction xs with
  | nil => exact lockstep_pure _
  | cons x xs ih => exact lockstep_bind (h x) fun _ => ih

theorem lockstep_mapM {f : γ → Act τ κ ω β} (xs : List γ) (h : ∀ x, Lockstep E (f x)) :
    Lockstep E (xs.mapM f) := by
  induction xs with
  | nil => exact lockstep_pure _
  | cons x xs ih =>
    rw [List.mapM_cons]
    exact lockstep_bind (h x) fun b => lockstep_bind ih fun bs => lockstep_pure (b :: bs)

section Running

variable [TimeScale τ] {finite : τ → Prop} {fire : Entry τ κ → Act τ κ ω Unit}

structure Abreast (E : Loop τ κ ω → Loop τ κ ω → Prop) (finite : τ → Prop)
    (fire : Entry τ κ → Act τ κ ω Unit) : Prop where
  clock : ∀ l m, E l m → l.seconds = m.seconds
  moves : ∀ l m t, E l m → E { l with seconds := TimeScale.later l.seconds t }
    { m with seconds := TimeScale.later m.seconds t }
  settles : ∀ l m, E l m →
    E { l with queue := l.queue.settle } { m with queue := m.queue.settle } ∧
      l.queue.settle.deadline? = m.queue.settle.deadline? ∧
      ∀ d, l.queue.settle.deadline? = some d → finite d
  fires : ∀ l m now e q, E l m → finite now → l.queue.takeDue now = (some e, q) →
    ∃ f r, m.queue.takeDue now = (some f, r) ∧
      Alike E (fire e { l with queue := q }) (fire f { m with queue := r })
  idles : ∀ l m now q, E l m → finite now → l.queue.takeDue now = (none, q) →
    ∃ r, m.queue.takeDue now = (none, r) ∧ E { l with queue := q } { m with queue := r }

namespace Abreast

variable (hc : Abreast E finite fire)

include hc

theorem runDue {now : τ} (hn : finite now) (turns ran : Nat) :
    Lockstep E (runDue fire now turns ran) := by
  induction turns generalizing ran with
  | zero => exact lockstep_throw _
  | succ turns ih =>
    intro l m h
    have htake : ∀ k : Loop τ κ ω, takeDue now k = .ok (k.queue.takeDue now).1
        { k with queue := (k.queue.takeDue now).2 } := fun _ => rfl
    rw [Loop.runDue, bind_of_ok (htake l), bind_of_ok (htake m)]
    cases hq : l.queue.takeDue now with
    | mk o q =>
      cases o with
      | none =>
        obtain ⟨r, hr, hidle⟩ := hc.idles l m now q h hn hq
        rw [hr]
        exact .ok ran hidle
      | some e =>
        obtain ⟨f, r, hr, hfire⟩ := hc.fires l m now e q h hn hq
        rw [hr]
        exact alike_bind hfire fun _ => ih (ran + 1)

theorem catchUp (target : τ) (turns : Nat) : Lockstep E (catchUp fire target turns) := by
  induction turns with
  | zero => exact lockstep_throw _
  | succ turns ih =>
    intro l m h
    obtain ⟨hsettled, hsame, hfinite⟩ := hc.settles l m h
    have hnext : ∀ k : Loop τ κ ω, nextDeadline k = .ok k.queue.settle.deadline?
        { k with queue := k.queue.settle } := fun _ => rfl
    rw [Loop.catchUp, bind_of_ok (hnext l), bind_of_ok (hnext m), ← hsame]
    cases hd : l.queue.settle.deadline? with
    | none => exact lockstep_pure _ _ _ hsettled
    | some d =>
      refine lockstep_ite ?_ (lockstep_pure _) _ _ hsettled
      refine lockstep_bind (lockstep_modify fun l m h => hc.moves l m _ h) fun _ => ?_
      exact lockstep_bind (hc.runDue (hfinite d hd) _ 0) fun _ => ih

theorem advance (turns : Nat) (ms : τ) : Lockstep E (advance fire turns ms) := by
  refine lockstep_get (fun l m h => ?_) fun l => ?_
  · rw [now, now, hc.clock l m h]
  · refine lockstep_bind (hc.catchUp _ turns) fun _ => ?_
    exact lockstep_modify fun l m h => hc.moves l m _ h

end Abreast

end Running

end Loop

end TrafficIndicator
