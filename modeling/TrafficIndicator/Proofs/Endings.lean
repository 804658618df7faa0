import TrafficIndicator.Proofs.Activity

/-!
An activity that halts keeps what it did before it halted. What the turns of a loop and the
pauses between them keep, all of its runs keep.
-/
namespace TrafficIndicator.Loop

variable {τ κ ω α : Type} {P : Loop τ κ ω → Prop} {R : Halt → Loop τ κ ω → Prop}

/-- The state that an activity leaves, at its end or where it halted. -/
def after (x : Act τ κ ω α) (l : Loop τ κ ω) : Loop τ κ ω :=
  match x l with
  | .ok _ m => m
  | .error _ m => m

theorem endsIn_iff_after {x : Act τ κ ω α} {l : Loop τ κ ω} :
    EndsIn P (fun _ => P) (x l) ↔ P (after x l) := by
  rw [after]
  cases x l <;> exact Iff.rfl

abbrev Leaves (P : Loop τ κ ω → Prop) (x : Act τ κ ω α) : Prop :=
  Ends P (fun h m => h ≠ .exhausted → P m) x

section Running

variable [TimeScale τ] {fire : Entry τ κ → Act τ κ ω Unit}

/-- What one turn of a loop does: an entry that is due is taken and its job runs, or none is
due. Nothing is asked of the state between the two. -/
structure Turns (P : Loop τ κ ω → Prop) (R : Halt → Loop τ κ ω → Prop)
    (fire : Entry τ κ → Act τ κ ω Unit) : Prop where
  fires : ∀ l now e q, P l → l.queue.takeDue now = (some e, q) →
    EndsIn P R (fire e { l with queue := q })
  idles : ∀ l now q, P l → l.queue.takeDue now = (none, q) → P { l with queue := q }
  tires : ∀ l, P l → R .exhausted l

structure TurnsAt (P : Loop τ κ ω → Prop) (R : Halt → Loop τ κ ω → Prop)
    (fire : Entry τ κ → Act τ κ ω Unit) (now : τ) : Prop where
  fires : ∀ l e q, P l → l.queue.takeDue now = (some e, q) →
    EndsIn P R (fire e { l with queue := q })
  idles : ∀ l q, P l → l.queue.takeDue now = (none, q) → P { l with queue := q }
  tires : ∀ l, P l → R .exhausted l

theorem Turns.runs (h : Turns P R fire) (now : τ) : TurnsAt P R fire now where
  fires l e q := h.fires l now e q
  idles l q := h.idles l now q
  tires := h.tires

theorem TurnsAt.runDue {now : τ} (h : TurnsAt P R fire now) (turns ran : Nat) :
    Ends P R (runDue fire now turns ran) := by
  induction turns generalizing ran with
  | zero => exact ends_throw h.tires
  | succ turns ih =>
    -- one turn, and then a run with one turn less
    intro l hp
    have htake : takeDue now l = .ok (l.queue.takeDue now).1
        { l with queue := (l.queue.takeDue now).2 } := rfl
    rw [Loop.runDue, bind_of_ok htake]
    cases hq : l.queue.takeDue now with
    | mk o q =>
      cases o with
      | none => exact h.idles l q hp hq
      | some e =>
        have hfire := h.fires l e q hp hq
        exact endsIn_bind hfire fun _ m hm => ih (ran + 1) m hm

theorem ends_runDue (h : Turns P R fire) (now : τ) (turns ran : Nat) :
    Ends P R (runDue fire now turns ran) :=
  (h.runs now).runDue turns ran

/-- A run through what is due ends with a look at the queue that finds nothing more. -/
theorem runDue_ok (h : Turns P R fire) {now : τ} {turns ran n : Nat} {l m : Loop τ κ ω}
    (hp : P l) (hr : runDue fire now turns ran l = .ok n m) :
    ∃ k q, P k ∧ k.queue.takeDue now = (none, q) ∧ m = { k with queue := q } := by
  induction turns generalizing ran l with
  | zero => cases hr
  | succ turns ih =>
    have htake : takeDue now l = .ok (l.queue.takeDue now).1
        { l with queue := (l.queue.takeDue now).2 } := rfl
    rw [runDue, bind_of_ok htake] at hr
    cases hq : l.queue.takeDue now with
    | mk o q =>
      rw [hq] at hr
      cases o with
      | none =>
        obtain ⟨-, rfl⟩ := pure_ok.mp hr
        exact ⟨l, q, hp, hq, rfl⟩
      | some e =>
        obtain ⟨u, k, hk, hr⟩ := bind_ok.mp hr
        have hfired := h.fires l now e q hp hq
        rw [hk] at hfired
        exact ih hfired hr

/-- Letting time pass runs what falls due, and looks at the queue and moves the clock beside. -/
theorem ends_catchUp (ht : Turns P R fire) (hs : ∀ l, P l → P { l with queue := l.queue.settle })
    (hc : ∀ l t, P l → P { l with seconds := t }) (target : τ) (turns : Nat) :
    Ends P R (catchUp fire target turns) := by
  induction turns with
  | zero => exact ends_throw ht.tires
  | succ turns ih =>
    rw [catchUp]
    refine ends_bind (ends_bind (ends_modify hs) fun _ =>
      ends_bind ends_get fun _ => ends_pure _) fun o => ?_
    cases o with
    | none => exact ends_pure _
    | some d =>
      refine ends_ite ?_ (ends_pure _)
      exact ends_bind (ends_modify fun l hp => hc l _ hp) fun _ =>
        ends_bind (ends_runDue ht d _ 0) fun _ => ih

theorem ends_advance (ht : Turns P R fire) (hs : ∀ l, P l → P { l with queue := l.queue.settle })
    (hc : ∀ l t, P l → P { l with seconds := t }) (turns : Nat) (ms : τ) :
    Ends P R (advance fire turns ms) :=
  ends_bind ends_get fun _ => ends_bind (ends_catchUp ht hs hc _ turns) fun _ =>
    ends_modify fun l hp => hc l _ hp

structure Pauses (P : Loop τ κ ω → Prop) (R : Halt → Loop τ κ ω → Prop)
    (hooks : Hooks τ κ ω) : Prop where
  settles : ∀ l, P l → P { l with queue := l.queue.settle }
  sleeps : ∀ t, Ends P R (hooks.sleep t)
  rests : Ends P R hooks.idle
  started : ∀ l b, P l → P { l with running := b }
  stopped : ∀ e l b, R e l → R e { l with running := b }

variable {hooks : Hooks τ κ ω}

theorem ends_spin (ht : Turns P R hooks.fire) (h : Pauses P R hooks) (turns : Nat) :
    Ends P R (spin hooks turns) := by
  induction turns with
  | zero => exact ends_throw ht.tires
  | succ turns ih =>
    rw [spin]
    refine ends_bind ends_get fun l => ends_ite ?_ (ends_pure _)
    refine ends_bind ?_ fun o => ?_
    · refine ends_bind (ends_bind (ends_modify h.settles) fun _ =>
        ends_bind ends_get fun _ => ends_pure _) fun o => ?_
      cases o with
      | none => exact ends_pure _
      | some d => exact ends_bind ends_get fun _ => ends_pure _
    · cases o with
      | none => exact h.rests
      | some p =>
        obtain ⟨d, wait⟩ := p
        refine ends_bind ?_ fun _ => ends_bind ?_ fun _ => ih
        · cases wait with
          | none => exact ends_pure _
          | some s => exact h.sleeps s
        · exact ends_bind ends_get fun l => ends_runDue ht _ _ _

theorem ends_run (ht : Turns P R hooks.fire) (h : Pauses P R hooks) (turns : Nat) :
    Ends P R (run hooks turns) := by
  intro l hp
  have hspin := ends_spin ht h turns _ (h.started l true hp)
  rw [run]
  cases hs : spin hooks turns { l with running := true } with
  | ok u m =>
    rw [hs] at hspin
    exact h.started m false hspin
  | error e m =>
    rw [hs] at hspin
    exact h.stopped e m false hspin

end Running

end TrafficIndicator.Loop
