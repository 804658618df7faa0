import TrafficIndicator.Proofs.QueueHistory
import TrafficIndicator.Proofs.TimerSlots

/-!
A history lists the arming, disarming and firing of timers, the latest first. Others may queue
and cancel on the same queue. What a slot holds is told by the history alone, even where
cancellations are lost and old timers still fire. Where none is lost, a timer fires only while
its slot holds it.
-/
namespace TrafficIndicator.Slots

variable {τ κ ν : Type}

inductive Event (ν : Type) where
  | armed (kind : ν) (token : Nat)
  | disarmed (kind : ν)
  | disarmedAll
  | fired (token : Nat)
  /-- Someone else cancelled a token. -/
  | cancelled (token : Nat)

namespace Event

def Ends (kind : ν) (token : Nat) : Event ν → Prop
  | .armed k _ => k = kind
  | .disarmed k => k = kind
  | .disarmedAll => True
  | .fired t => t = token
  | .cancelled _ => False

def Replaces (kind : ν) : Event ν → Prop
  | .armed k _ => k = kind
  | .disarmed k => k = kind
  | .disarmedAll => True
  | .fired _ => False
  | .cancelled _ => False

theorem Replaces.ends {x : Event ν} {kind : ν} (h : x.Replaces kind) (token : Nat) :
    x.Ends kind token := by
  cases x with
  | armed | disarmed | disarmedAll => exact h
  | fired | cancelled => exact h.elim

end Event

def firings (past : List (Event ν)) : List Nat :=
  past.filterMap fun
    | .fired t => some t
    | _ => none

/-- The timer is the last that was armed for its kind, and since then it has neither fired nor
been disarmed. -/
def Pending (past : List (Event ν)) (kind : ν) (token : Nat) : Prop :=
  ∃ newer older, past = newer ++ .armed kind token :: older ∧
    ∀ x ∈ newer, ¬ x.Ends kind token

theorem pending_cons {x : Event ν} {past : List (Event ν)} {kind : ν} {token : Nat} :
    Pending (x :: past) kind token ↔
      x = .armed kind token ∨ (Pending past kind token ∧ ¬ x.Ends kind token) := by
  constructor
  · rintro ⟨newer, older, heq, hn⟩
    cases newer with
    | nil =>
      obtain ⟨rfl, -⟩ := List.cons.inj heq
      exact Or.inl rfl
    | cons y newer =>
      obtain ⟨rfl, rfl⟩ := List.cons.inj heq
      refine Or.inr ⟨⟨newer, older, rfl, ?_⟩, hn x List.mem_cons_self⟩
      intro z hz
      exact hn z (List.mem_cons_of_mem _ hz)
  · rintro (rfl | ⟨⟨newer, older, rfl, hn⟩, hx⟩)
    · exact ⟨[], past, rfl, fun z hz => (List.not_mem_nil hz).elim⟩
    · refine ⟨x :: newer, older, rfl, ?_⟩
      intro z hz
      rcases List.mem_cons.mp hz with rfl | hz
      · exact hx
      · exact hn z hz

theorem not_pending_nil (kind : ν) (token : Nat) : ¬ Pending [] kind token := by
  rintro ⟨newer, older, h, -⟩
  exact List.append_ne_nil_of_right_ne_nil _ (List.cons_ne_nil _ _) h.symm

theorem Pending.armed {past : List (Event ν)} {kind : ν} {token : Nat}
    (h : Pending past kind token) : .armed kind token ∈ past := by
  obtain ⟨newer, older, rfl, -⟩ := h
  exact List.mem_append_right _ List.mem_cons_self

variable [DecidableEq ν] [TimeScale τ] {kindOf : κ → Option ν} {reaches : Nat → Bool}
  {past : List (Event ν)} {s : Slots ν} {q r : Queue τ κ} {kind : ν} {token : Nat}

def afterFiring (kindOf : κ → Option ν) (s : Slots ν) (e : Entry τ κ) : Slots ν :=
  match kindOf e.job with
  | some kind => s.release kind e.token
  | none => s

/-- Slots and the queue beneath them that came to be by what the history lists. -/
inductive Past (kindOf : κ → Option ν) (reaches : Nat → Bool) :
    List (Event ν) → Slots ν → Queue τ κ → Prop where
  | empty : Past kindOf reaches [] {} {}
  | arm {past : List (Event ν)} {s : Slots ν} {q : Queue τ κ} (h : Past kindOf reaches past s q)
      {kind : ν} {job : κ} (hj : kindOf job = some kind) (deadline : τ) :
      Past kindOf reaches (.armed kind q.nextToken :: past) (s.arm reaches kind deadline job q).1
        (s.arm reaches kind deadline job q).2
  | disarm {past : List (Event ν)} {s : Slots ν} {q : Queue τ κ}
      (h : Past kindOf reaches past s q) (kind : ν) :
      Past kindOf reaches (.disarmed kind :: past) (s.disarm reaches kind q).1
        (s.disarm reaches kind q).2
  | disarmAll {past : List (Event ν)} {s : Slots ν} {q : Queue τ κ}
      (h : Past kindOf reaches past s q) :
      Past kindOf reaches (.disarmedAll :: past) (s.disarmAll reaches q).1
        (s.disarmAll reaches q).2
  | fire {past : List (Event ν)} {s : Slots ν} {q r : Queue τ κ} {now : τ} {e : Entry τ κ}
      (h : Past kindOf reaches past s q) (ht : q.takeDue now = (some e, r)) :
      Past kindOf reaches (.fired e.token :: past) (s.afterFiring kindOf e) r
  | idle {past : List (Event ν)} {s : Slots ν} {q r : Queue τ κ} {now : τ}
      (h : Past kindOf reaches past s q) (ht : q.takeDue now = (none, r)) :
      Past kindOf reaches past s r
  | settle {past : List (Event ν)} {s : Slots ν} {q : Queue τ κ}
      (h : Past kindOf reaches past s q) : Past kindOf reaches past s q.settle
  | push {past : List (Event ν)} {s : Slots ν} {q : Queue τ κ}
      (h : Past kindOf reaches past s q) {job : κ} (hj : kindOf job = none) (deadline : τ) :
      Past kindOf reaches past s (q.push deadline job).2
  | cancel {past : List (Event ν)} {s : Slots ν} {q : Queue τ κ}
      (h : Past kindOf reaches past s q) (token : Nat) :
      Past kindOf reaches (.cancelled token :: past) s (q.cancel token)

structure Marked (kindOf : κ → Option ν) (past : List (Event ν)) (q : Queue τ κ) : Prop where
  sound : q.Sound
  issued : ∀ kind token, .armed kind token ∈ past → token < q.nextToken
  kinds : ∀ kind token, .armed kind token ∈ past →
    ∀ e ∈ q.entries, e.token = token → kindOf e.job = some kind

omit [DecidableEq ν] in
omit [TimeScale τ] in
theorem Marked.onward (h : Marked kindOf past q) {past' : List (Event ν)} (hs : r.Sound)
    (hn : q.nextToken ≤ r.nextToken)
    (he : ∀ e ∈ r.entries, e ∈ q.entries ∨ q.nextToken ≤ e.token)
    (hp : ∀ kind token, .armed kind token ∈ past' → .armed kind token ∈ past) :
    Marked kindOf past' r := by
  refine ⟨hs, ?_, ?_⟩
  · intro kind token hm
    exact Nat.lt_of_lt_of_le (h.issued kind token (hp kind token hm)) hn
  · intro kind token hm e hem ht
    rcases he e hem with hold | hnew
    · exact h.kinds kind token (hp kind token hm) e hold ht
    · have hlt := h.issued kind token (hp kind token hm)
      omega

omit [DecidableEq ν] in
omit [TimeScale τ] in
theorem Marked.cancel (h : Marked kindOf past q) (token : Nat) :
    Marked kindOf past (q.cancel token) := by
  have hsame : (q.cancel token).entries = q.entries ∧
      (q.cancel token).nextToken = q.nextToken := by
    rw [Queue.cancel]
    split <;> exact ⟨rfl, rfl⟩
  refine h.onward (Queue.sound_cancel h.sound token) (Nat.le_of_eq hsame.2.symm) ?_
    fun _ _ hm => hm
  intro e he
  rw [hsame.1] at he
  exact Or.inl he

omit [TimeScale τ] in
theorem Marked.disarm (h : Marked kindOf past q) (reaches : Nat → Bool) (s : Slots ν) (kind : ν) :
    Marked kindOf past (s.disarm reaches kind q).2 := by
  rw [Slots.disarm]
  split
  · exact h
  · dsimp only
    split
    · exact h.cancel _
    · exact h

omit [DecidableEq ν] in
theorem Marked.push (h : Marked kindOf past q) (deadline : τ) (job : κ) :
    Marked kindOf past (q.push deadline job).2 := by
  refine h.onward (Queue.sound_push h.sound deadline job) (Nat.le_succ _) ?_ fun _ _ hm => hm
  intro e he
  rcases Queue.mem_push.mp he with rfl | he
  · exact Or.inr (Nat.le_refl _)
  · exact Or.inl he

omit [DecidableEq ν] in
theorem Marked.takeDue (h : Marked kindOf past q) {now : τ} {o : Option (Entry τ κ)}
    (ht : q.takeDue now = (o, r)) : Marked kindOf past r := by
  have hsound : r.Sound := by
    cases o with
    | none => exact (Queue.takeDue_none h.sound ht).1
    | some e => exact (Queue.takeDue_some h.sound ht).1
  refine h.onward hsound (Nat.le_of_eq (Queue.nextToken_takeDue ht).symm) ?_ fun _ _ hm => hm
  intro e he
  exact Or.inl ((Queue.takeDue_suffix h.sound ht).subset he)

omit [DecidableEq ν] in
omit [TimeScale τ] in
theorem Marked.cons (h : Marked kindOf past q) {x : Event ν}
    (hx : ∀ kind token, x ≠ .armed kind token) : Marked kindOf (x :: past) q := by
  refine h.onward h.sound (Nat.le_refl _) (fun e he => Or.inl he) ?_
  intro kind token hm
  rcases List.mem_cons.mp hm with heq | hm
  · exact absurd heq.symm (hx kind token)
  · exact hm

theorem Past.marked (h : Past kindOf reaches past s q) : Marked kindOf past q := by
  induction h with
  | empty =>
    refine ⟨Queue.sound_empty, ?_, ?_⟩ <;>
      exact fun _ _ hm => (List.not_mem_nil hm).elim
  | @arm past s q h kind job hj deadline ih =>
    have hd := ih.disarm reaches s kind
    have hnext : (s.disarm reaches kind q).2.nextToken = q.nextToken := nextToken_disarm ..
    obtain ⟨hsound, hissued, hkinds⟩ := hd.push deadline job
    refine ⟨hsound, ?_, ?_⟩
    · intro k t hm
      rcases List.mem_cons.mp hm with heq | hm
      · injection heq with hk ht
        subst ht
        change q.nextToken < (s.disarm reaches kind q).2.nextToken + 1
        omega
      · exact hissued k t hm
    · intro k t hm e he ht
      rcases List.mem_cons.mp hm with heq | hm
      · injection heq with hk hq
        subst hk
        rcases Queue.mem_push.mp he with rfl | he
        · exact hj
        · have hlt := hd.sound.issued e he
          omega
      · exact hkinds k t hm e he ht
  | disarm h kind ih => exact (ih.disarm reaches _ kind).cons nofun
  | disarmAll h ih =>
    refine Marked.cons ?_ nofun
    exact disarmAll_keeps (P := fun _ q => Marked kindOf _ q)
      (fun s q kind h => h.disarm reaches s kind) ih
  | fire h ht ih => exact (ih.takeDue ht).cons nofun
  | idle h ht ih => exact ih.takeDue ht
  | settle h ih =>
    refine ih.onward (Queue.sound_settle ih.sound) (Nat.le_refl _) ?_ fun _ _ hm => hm
    intro e he
    exact Or.inl ((Queue.dropped_dropCancelled _ ih.sound.tidy).suffix.subset he)
  | push h hj deadline ih => exact ih.push deadline _
  | cancel h token ih => exact (ih.cancel token).cons nofun

omit [TimeScale τ] in
/-- A timer that fires leaves the slot that holds it, of whatever kind the timer is. -/
theorem token?_afterFiring {e : Entry τ κ}
    (hk : s.token? kind = some e.token → kindOf e.job = some kind) :
    (s.afterFiring kindOf e).token? kind = some token ↔
      s.token? kind = some token ∧ e.token ≠ token := by
  rw [afterFiring]
  split
  · rename_i k hek
    rw [token?_release]
    split
    · rename_i hc
      obtain ⟨rfl, hheld⟩ := hc
      rw [hheld]
      simp
    · rename_i hc
      refine ⟨fun ht => ⟨ht, ?_⟩, And.left⟩
      rintro rfl
      obtain rfl := Option.some.inj (hek.symm.trans (hk ht))
      exact hc ⟨rfl, ht⟩
  · rename_i hek
    refine ⟨fun ht => ⟨ht, ?_⟩, And.left⟩
    rintro rfl
    rw [hk ht] at hek
    cases hek

/-- A slot holds the timer that is pending for its kind, whatever cancellations do. -/
theorem Past.token?_eq_some_iff (h : Past kindOf reaches past s q) {kind : ν} {token : Nat} :
    s.token? kind = some token ↔ Pending past kind token := by
  induction h generalizing kind token with
  | empty =>
    refine iff_of_false ?_ (not_pending_nil kind token)
    simp [token?]
  | arm h hj deadline ih =>
    rename_i past s q k job
    rw [token?_arm, pending_cons]
    by_cases hk : kind = k
    · subst hk
      simp [Event.Ends]
    · have hk' : k ≠ kind := fun h => hk h.symm
      simp [hk, hk', Event.Ends, ih]
  | disarm h k ih =>
    rw [token?_disarm, pending_cons]
    by_cases hk : kind = k
    · subst hk
      simp [Event.Ends]
    · have hk' : k ≠ kind := fun h => hk h.symm
      simp [hk, hk', Event.Ends, ih]
  | disarmAll h ih =>
    rw [token?_disarmAll, pending_cons]
    simp [Event.Ends]
  | @fire past s q r now e h ht ih =>
    have hlive : q.live = e :: r.live := (Queue.takeDue_some h.marked.sound ht).2.1
    have hmem : e ∈ q.entries := by
      refine (Queue.mem_live.mp ?_).1
      rw [hlive]
      exact List.mem_cons_self
    have hkind : s.token? kind = some e.token → kindOf e.job = some kind := by
      intro hheld
      exact h.marked.kinds kind e.token (ih.mp hheld).armed e hmem rfl
    rw [token?_afterFiring hkind, pending_cons, ih]
    simp [Event.Ends]
  | idle h ht ih => exact ih
  | settle h ih => exact ih
  | push h hj deadline ih => exact ih
  | cancel h t ih =>
    rw [ih, pending_cons]
    simp [Event.Ends]

def Unmeddled (past : List (Event ν)) : Prop :=
  ∀ token, .cancelled token ∈ past → ∀ kind, .armed kind token ∉ past

omit [DecidableEq ν] in
theorem Unmeddled.older {x : Event ν} (h : Unmeddled (x :: past)) : Unmeddled past := by
  intro token hc kind ha
  exact h token (List.mem_cons_of_mem _ hc) kind (List.mem_cons_of_mem _ ha)

omit [TimeScale τ] in
theorem Backed.of_live (h : Backed kindOf s q) (hl : r.live = q.live) : Backed kindOf s r := by
  constructor
  · rw [hl]
    exact h.queued
  · rw [hl]
    exact h.held

theorem Backed.push (h : Backed kindOf s q) (hq : q.Sound) {job : κ} (hj : kindOf job = none)
    (deadline : τ) : Backed kindOf s (q.push deadline job).2 := by
  have hmem : ∀ e, e ∈ (q.push deadline job).2.live ↔
      e = ⟨deadline, q.nextToken, job⟩ ∨ e ∈ q.live := by
    intro e
    rw [(Queue.live_push hq deadline job).mem_iff, List.mem_cons]
  constructor
  · intro k t hk
    obtain ⟨e, he, hte, hek⟩ := h.queued k t hk
    exact ⟨e, (hmem e).mpr (Or.inr he), hte, hek⟩
  · intro e he k hk
    rcases (hmem e).mp he with rfl | he
    · rw [hj] at hk
      cases hk
    · exact h.held e he k hk

omit [TimeScale τ] in
theorem Backed.cancel (h : Backed kindOf s q) (hn : ∀ kind, s.token? kind ≠ some token) :
    Backed kindOf s (q.cancel token) := by
  constructor
  · intro k t hk
    obtain ⟨e, he, hte, hek⟩ := h.queued k t hk
    refine ⟨e, Queue.mem_live_cancel.mpr ⟨he, ?_⟩, hte, hek⟩
    rintro rfl
    rw [← hte] at hk
    exact hn k hk
  · intro e he k hk
    exact h.held e (Queue.mem_live_cancel.mp he).1 k hk

omit [TimeScale τ] in
theorem Backed.fire (h : Backed kindOf s q) (hq : q.Sound) {e : Entry τ κ}
    (hl : q.live = e :: r.live) : Backed kindOf (s.afterFiring kindOf e) r := by
  rw [afterFiring]
  split
  · rename_i kind hk
    exact backed_release hq h hl hk
  · rename_i hk
    constructor
    · intro k t hkt
      obtain ⟨f, hf, hft, hfk⟩ := h.queued k t hkt
      rw [hl] at hf
      rcases List.mem_cons.mp hf with rfl | hf
      · rw [hk] at hfk
        cases hfk
      · exact ⟨f, hf, hft, hfk⟩
    · intro f hf
      apply h.held f
      rw [hl]
      exact List.mem_cons_of_mem _ hf

theorem Past.backed (h : Past kindOf (fun _ => true) past s q) (hu : Unmeddled past) :
    Backed kindOf s q := by
  induction h with
  | empty => exact backed_empty
  | arm h hj deadline ih => exact backed_arm h.marked.sound (ih hu.older) hj deadline
  | disarm h kind ih => exact backed_disarm h.marked.sound (ih hu.older) kind
  | @disarmAll past s q h ih =>
    have hboth : ((s.disarmAll (fun _ => true) q).2.Sound ∧
        Backed kindOf (s.disarmAll (fun _ => true) q).1 (s.disarmAll (fun _ => true) q).2) :=
      disarmAll_keeps (P := fun s q => q.Sound ∧ Backed kindOf s q)
        (fun _ _ kind h => ⟨sound_disarm h.1 _ kind, backed_disarm h.1 h.2 kind⟩)
        ⟨h.marked.sound, ih hu.older⟩
    exact hboth.2
  | fire h ht ih =>
    exact (ih hu.older).fire h.marked.sound (Queue.takeDue_some h.marked.sound ht).2.1
  | idle h ht ih => exact (ih hu).of_live (Queue.takeDue_none h.marked.sound ht).2
  | settle h ih => exact (ih hu).of_live (Queue.live_settle h.marked.sound)
  | push h hj deadline ih => exact (ih hu).push h.marked.sound hj deadline
  | cancel h token ih =>
    refine (ih hu.older).cancel fun kind hheld => ?_
    have harmed := (h.token?_eq_some_iff.mp hheld).armed
    exact hu token List.mem_cons_self kind (List.mem_cons_of_mem _ harmed)

omit [TimeScale τ] in
theorem Backed.live_of_kind (h : Backed kindOf s q) (hq : q.Sound) (kind : ν) :
    (q.live.filter fun e => kindOf e.job = some kind).map Entry.token =
      (s.token? kind).toList := by
  have hheld : ∀ e ∈ q.live.filter (fun e => kindOf e.job = some kind),
      s.token? kind = some e.token := by
    intro e he
    obtain ⟨hl, hk⟩ := List.mem_filter.mp he
    exact h.held e hl kind (of_decide_eq_true hk)
  cases hs : s.token? kind with
  | none =>
    have hnil : q.live.filter (fun e => decide (kindOf e.job = some kind)) = [] := by
      refine List.eq_nil_iff_forall_not_mem.mpr fun e he => ?_
      rw [hs] at hheld
      cases hheld e he
    rw [hnil]
    rfl
  | some t =>
    obtain ⟨f, hf, rfl, hfk⟩ := h.queued kind t hs
    have hnodup := (Queue.live_distinct hq).sublist
      ((List.filter_sublist (p := fun e => decide (kindOf e.job = some kind))).map Entry.token)
    refine List.perm_singleton.mp ?_
    refine (List.perm_ext_iff_of_nodup hnodup (List.nodup_singleton f.token)).mpr fun t => ?_
    rw [List.mem_singleton, List.mem_map]
    constructor
    · rintro ⟨e, he, rfl⟩
      exact Option.some.inj ((hheld e he).symm.trans hs)
    · rintro rfl
      exact ⟨f, List.mem_filter.mpr ⟨hf, decide_eq_true hfk⟩, rfl⟩

/-- The state before the last event: a token that is armed is new, and one that fires waited. -/
theorem Past.before_last {x : Event ν} (h : Past kindOf reaches (x :: past) s q) :
    ∃ (s' : Slots ν) (q' : Queue τ κ), Past kindOf reaches past s' q' ∧
      (∀ kind token, x = .armed kind token → token = q'.nextToken) ∧
      ∀ token, x = .fired token → ∃ e ∈ q'.live, e.token = token := by
  generalize hp : x :: past = full at h
  induction h with
  | empty => cases hp
  | @arm past' s q h kind job hj deadline ih =>
    obtain ⟨rfl, rfl⟩ := List.cons.inj hp
    refine ⟨s, q, h, ?_, nofun⟩
    intro k t hx
    injection hx with hk ht
    exact ht.symm
  | @disarm past' s q h kind ih =>
    obtain ⟨rfl, rfl⟩ := List.cons.inj hp
    exact ⟨s, q, h, nofun, nofun⟩
  | @disarmAll past' s q h ih =>
    obtain ⟨rfl, rfl⟩ := List.cons.inj hp
    exact ⟨s, q, h, nofun, nofun⟩
  | @fire past' s q r now e h ht ih =>
    obtain ⟨rfl, rfl⟩ := List.cons.inj hp
    refine ⟨s, q, h, nofun, ?_⟩
    intro t hx
    injection hx with ht'
    refine ⟨e, ?_, ht'⟩
    rw [(Queue.takeDue_some h.marked.sound ht).2.1]
    exact List.mem_cons_self
  | idle h ht ih => exact ih hp
  | settle h ih => exact ih hp
  | push h hj deadline ih => exact ih hp
  | @cancel past' s q h t ih =>
    obtain ⟨rfl, rfl⟩ := List.cons.inj hp
    exact ⟨s, q, h, nofun, nofun⟩

/-- A timer that was replaced is never pending again, and so never fires. -/
theorem Past.not_fired_of_replaced {newer older : List (Event ν)} {x : Event ν}
    (h : Past kindOf (fun _ => true) (newer ++ x :: older) s q)
    (hu : Unmeddled (newer ++ x :: older)) (ha : .armed kind token ∈ older)
    (hx : x.Replaces kind) :
    .fired token ∉ newer ∧ ¬ Pending (newer ++ x :: older) kind token := by
  induction newer generalizing s q with
  | nil =>
    refine ⟨List.not_mem_nil, fun hp => ?_⟩
    obtain ⟨s', q', h', harm, -⟩ := h.before_last
    rcases pending_cons.mp hp with rfl | ⟨-, hn⟩
    · have hlt := h'.marked.issued kind token ha
      have heq := harm kind token rfl
      omega
    · exact hn (hx.ends token)
  | cons y newer ih =>
    obtain ⟨s', q', h', harm, hfire⟩ := h.before_last
    obtain ⟨hf, hp⟩ := ih h' (Unmeddled.older hu)
    have hin : .armed kind token ∈ newer ++ x :: older :=
      List.mem_append_right _ (List.mem_cons_of_mem _ ha)
    constructor
    · intro hm
      rcases List.mem_cons.mp hm with rfl | hm
      · -- what fires waited, so its slot held it, so it was pending before
        obtain ⟨e, he, het⟩ := hfire token rfl
        have hkind := h'.marked.kinds kind token hin e (Queue.mem_live.mp he).1 het
        have hheld := (h'.backed (Unmeddled.older hu)).held e he kind hkind
        rw [het] at hheld
        exact hp (h'.token?_eq_some_iff.mp hheld)
      · exact hf hm
    · -- a token that is armed is new, so this one cannot become pending again
      intro hpend
      rcases pending_cons.mp hpend with rfl | ⟨hpend, -⟩
      · have hlt := h'.marked.issued kind token hin
        have heq := harm kind token rfl
        omega
      · exact hp hpend

/-- A kind is armed exactly when a timer is pending for it, whatever cancellations do. -/
theorem Past.isArmed_iff (h : Past kindOf reaches past s q) (kind : ν) :
    s.isArmed kind = true ↔ ∃ token, Pending past kind token := by
  rw [Slots.isArmed_iff]
  exact exists_congr fun token => h.token?_eq_some_iff

theorem Past.count_of_kind (h : Past kindOf (fun _ => true) past s q) (hu : Unmeddled past)
    (kind : ν) :
    (q.live.filter fun e => kindOf e.job = some kind).length =
      if s.isArmed kind then 1 else 0 := by
  have hlen := congrArg List.length ((h.backed hu).live_of_kind h.marked.sound kind)
  rw [List.length_map] at hlen
  rw [hlen, isArmed]
  cases s.token? kind <;> rfl

end TrafficIndicator.Slots
