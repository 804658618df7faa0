import Mathlib.Algebra.Order.Ring.Rat
import Mathlib.Tactic.Linarith
import TrafficIndicator.Proofs.SharedLoop
import TrafficIndicator.Proofs.SettingValues

/-!
A course lists what bears on the timers of an indicator and on its baseline, the latest first.
Nothing halts on the way and every cancellation reaches the loop. Between its steps the polls of
the collaborators come and go, and the clock moves as the rules allow. Every operation, and
every run of the loop, adds to a course.
-/
namespace TrafficIndicator.Panel

open Loop Indicator

inductive Moment (τ : Type) where
  | joined
  /-- A setting that is known reached the attached indicator; it may have turned it on. -/
  | changed (time : τ) (on : Bool)
  | ticked
  /-- The refresh ran that was due at this time. -/
  | refreshed (due : τ)
  | left

def Moment.IsChange {τ : Type} : Moment τ → Prop
  | .changed .. => True
  | _ => False

def Moment.IsPass {τ : Type} : Moment τ → Prop
  | .ticked => True
  | .refreshed _ => True
  | _ => False

structure Rules (τ : Type) where
  /-- Whether others than its timer may ask for a tick. -/
  called : Prop
  /-- How the clock may move, in seconds. -/
  moves : τ → τ → Prop
  /-- When a timer that is due at a time may fire. -/
  fires : τ → τ → Prop
  stays : ∀ t, moves t t

variable {τ : Type}

def Rules.free : Rules τ := ⟨True, fun _ _ => True, fun _ _ => True, fun _ => trivial⟩

/-- Ticks come from the timer alone, the clock never goes back, and no timer fires early. -/
def Rules.strict : Rules Rat := ⟨False, (· ≤ ·), (· ≤ ·), fun _ => Rat.le_refl⟩

def Opening (past : List (Moment τ)) : Prop :=
  ∃ changes older, past = changes ++ .joined :: older ∧ ∀ x ∈ changes, x.IsChange

variable [TimeScale τ]

def changes (l : Running τ) : Delivery → List (Moment τ)
  | .setting key v =>
    match l.host.owner.indicator.settings.update? key v with
    | some s =>
      if l.host.owner.indicator.attached then
        [.changed l.now (l.host.owner.indicator.turnsOn key s)]
      else []
    | none => []
  | _ => []

def firing (deadline : τ) : TimerKind → Moment τ
  | .tick => .ticked
  | .refresh => .refreshed deadline

inductive Course (rules : Rules τ) : List (Moment τ) → Running τ → Prop where
  | fresh {l : Running τ} (hi : l.host.owner.indicator = l.host.owner.indicator.fresh)
      (ht : l.host.owner.timers = {}) (hs : l.host.slots = {}) (hq : l.queue = {}) :
      Course rules [] l
  | joined {past : List (Moment τ)} {l l' : Running τ} {setup : Setup τ}
      (h : Course rules past l) (hs : setup.reaches = fun _ => true)
      (ha : l.host.owner.indicator.attached = false)
      (hr : react setup Indicator.join l = .ok () l') : Course rules (.joined :: past) l'
  | heard {past : List (Moment τ)} {l l' : Running τ} {setup : Setup τ} {d : Delivery}
      (h : Course rules past l) (hs : setup.reaches = fun _ => true)
      (hr : listen setup d l = .ok () l') : Course rules (changes l d ++ past) l'
  | settled {past : List (Moment τ)} {l l' : Running τ} {setup : Setup τ}
      (h : Course rules past l) (hs : setup.reaches = fun _ => true)
      (ha : l.host.owner.indicator.attached = true) (ho : Opening past)
      (hr : react setup (fun i => i.settleIn (l.host.owner.timers.isArmed .tick)) l = .ok () l') :
      Course rules past l'
  | called {past : List (Moment τ)} {l l' : Running τ} {setup : Setup τ}
      (h : Course rules past l) (hs : setup.reaches = fun _ => true) (hc : rules.called)
      (ha : l.host.owner.indicator.attached = true) (hr : tick setup l = .ok () l') :
      Course rules (.ticked :: past) l'
  | fired {past : List (Moment τ)} {l l' : Running τ} {setup : Setup τ} {now : τ}
      {e : Entry τ Job} {q : Queue τ Job} {kind : TimerKind} (h : Course rules past l)
      (hs : setup.reaches = fun _ => true) (ht : l.queue.takeDue now = (some e, q))
      (hj : e.job = .own kind) (hf : rules.fires e.deadline l.now)
      (hr : fire setup e { l with queue := q } = .ok () l') :
      Course rules (firing e.deadline kind :: past) l'
  | left {past : List (Moment τ)} {l l' : Running τ} {setup : Setup τ}
      (h : Course rules past l) (hs : setup.reaches = fun _ => true)
      (hr : detach setup l = .ok () l') : Course rules (.left :: past) l'
  | shifted {past : List (Moment τ)} {l l' : Running τ} (h : Course rules past l)
      (hi : l'.host.owner.indicator = l.host.owner.indicator)
      (ht : l'.host.owner.timers = l.host.owner.timers) (hc : l'.seconds = l.seconds)
      (hq : Shift (l.host.slots, l.queue) (l'.host.slots, l'.queue)) : Course rules past l'
  | around {past : List (Moment τ)} {l l' : Running τ} (h : Course rules past l)
      (hi : l'.host.owner.indicator = l.host.owner.indicator) (ht : timing l' = timing l)
      (hq : l'.host.slots = l.host.slots) (hc : rules.moves l.seconds l'.seconds) :
      Course rules past l'

variable {rules : Rules τ} {past : List (Moment τ)} {setup : Setup τ} {l l' : Running τ}
  {u : Unit}

theorem keeps_inGear {x : Act τ Unit} (h : Ends InGear (fun _ => InGear) x)
    (hx : x l = .ok u l') (hg : InGear l) : InGear l' :=
  h.keeps l u l' hx hg

theorem Course.inGear (h : Course rules past l) : InGear l := by
  induction h with
  | fresh hi ht hs hq =>
    rw [InGear, ht, hs, hq]
    exact geared_empty
  | joined h hs ha hr ih => exact keeps_inGear (inGear_react hs _) hr ih
  | heard h hs hr ih => exact keeps_inGear (inGear_react hs _) hr ih
  | settled h hs ha ho hr ih => exact keeps_inGear (inGear_react hs _) hr ih
  | called h hs hc ha hr ih => exact keeps_inGear (inGear_tick hs) hr ih
  | fired h hs ht hj hf hr ih =>
    have hends := inGear_fire hs ih ht
    rw [hr] at hends
    exact hends
  | left h hs hr ih => exact keeps_inGear (inGear_operation hs .detach) hr ih
  | shifted h hi ht hc hq ih =>
    rw [InGear, ht]
    exact (hq.geared ih).1
  | around h hi ht hq hc ih =>
    have htimers : _ = _ := congrArg Prod.fst ht
    have hqueue : _ = _ := congrArg Prod.snd ht
    dsimp only [timing] at htimers hqueue
    rw [InGear, htimers, hq, hqueue]
    exact ih

/-- What a delivery does, with what it adds to the course: it leaves the timers and the sampler
alone, or it is a change, and then the refresh is armed anew. -/
inductive Heard (l l' : Running τ) : List (Moment τ) → Prop where
  | quiet (hd : due l'.queue = due l.queue)
      (ha : l'.host.owner.indicator.attached = l.host.owner.indicator.attached)
      (hsampler : l'.host.owner.indicator.sampler = l.host.owner.indicator.sampler)
      (hcurrent : l.host.owner.indicator.attached = true → Current l.host.owner.indicator →
        Current l'.host.owner.indicator) : Heard l l' []
  | changed (on : Bool) (ha : l.host.owner.indicator.attached = true)
      (ha' : l'.host.owner.indicator.attached = true)
      (hrefresh : due l'.queue .refresh = some (l.deadline (TimeScale.ofNat debounce)))
      (htick : on = false → due l'.queue .tick = due l.queue .tick)
      (hsampler : l'.host.owner.indicator.sampler =
        if on then l.host.owner.indicator.sampler.reset else l.host.owner.indicator.sampler) :
      Heard l l' [.changed l.now on]

omit [TimeScale τ] in
theorem current_tinted {i : Indicator τ} (h : Current i) (p : Bool) (t c : Value) :
    Current { i with pinned := p, tint := t, rendered := { i.rendered with tint := c } } :=
  ⟨h.visible, h.text, h.icon⟩

theorem Reacted.heard (hs : setup.reaches = fun _ => true) (hg : InGear l) {d : Delivery}
    (hr : Reacted setup (fun i => i.receive d) l l') : Heard l l' (changes l d) := by
  have ha := receive_attached hr.faultless
  have hd := (hr.due hs hg).2
  have hstate := hr.state
  rw [← hstate] at ha
  cases d with
  | connection b =>
    obtain ⟨ho, ⟨ρ, hρ⟩, hc⟩ := connectionChanged_spec hr.faultless
    refine .quiet ?_ ha ?_ fun ha _ => ?_
    · rw [hd, receive, ho]
      rfl
    · rw [hstate, receive, hρ]
    · rw [hstate]
      exact hc ha
  | lock b =>
    obtain ⟨ho, ⟨ρ, hρ⟩, hc⟩ := lockChanged_spec hr.faultless
    refine .quiet ?_ ha ?_ fun ha _ => ?_
    · rw [hd, receive, ho]
      rfl
    · rw [hstate, receive, hρ]
    · rw [hstate]
      exact hc ha
  | tint color pinned =>
    obtain ⟨ho, p, t, c, htint⟩ := tintChanged_spec (i := l.host.owner.indicator) color pinned
    refine .quiet ?_ ha ?_ fun _ hc => ?_
    · rw [hd, receive, ho]
      rfl
    · rw [hstate, receive, htint]
    · rw [hstate, receive, htint]
      exact current_tinted hc p t c
  | setting key v =>
    dsimp only [receive] at hd hstate
    cases settingChanged_taken (i := l.host.owner.indicator) key v with
    | refused _ hrefused =>
      have hnone := hr.faultless
      rw [receive, hrefused] at hnone
      cases hnone
    | unknown hu hf hsame ho =>
      have hnone : changes l (.setting key v) = [] := by
        rw [changes, ← Settings.update?_of_apply hu]
      rw [hnone]
      rw [hsame] at hstate
      refine .quiet ?_ ha (by rw [hstate]) fun _ hc => by rwa [hstate]
      rw [hd, ho]
      rfl
    | stored hu hf hdetached hsame ho =>
      have hnone : changes l (.setting key v) = [] := by
        simp [changes, ← Settings.update?_of_apply hu, hdetached]
      rw [hnone]
      refine .quiet ?_ ha ?_ fun ha' => absurd (hdetached.symm.trans ha') Bool.false_ne_true
      · rw [hd, ho]
        rfl
      · rw [hstate, hsame]
    | turnedOn hu hf hattached hon hsame ho =>
      have hnew : changes l (.setting key v) = [.changed l.now true] := by
        simp [changes, ← Settings.update?_of_apply hu, hattached, hon]
      rw [hnew]
      refine .changed true hattached (ha.trans hattached) ?_ (fun hfalse => ?_) ?_
      · simp [hd, ho]
      · cases hfalse
      · rw [hstate, hsame]
        rfl
    | changed hu hf hattached hon hsame ho =>
      have hnew : changes l (.setting key v) = [.changed l.now false] := by
        simp [changes, ← Settings.update?_of_apply hu, hattached, hon]
      rw [hnew]
      refine .changed false hattached (ha.trans hattached) ?_ (fun _ => ?_) ?_
      · simp [hd, ho]
      · simp [hd, ho]
      · rw [hstate, hsame]
        rfl

structure Onward (rules : Rules τ) (past : List (Moment τ)) (l₀ l : Running τ) : Prop where
  seconds : l.seconds = l₀.seconds
  attached : l.host.owner.indicator.attached = l₀.host.owner.indicator.attached
  course : ∃ news, (∀ x ∈ news, x.IsChange) ∧ Course rules (news ++ past) l

variable {l₀ : Running τ}

theorem Course.onward (h : Course rules past l) : Onward rules past l l :=
  ⟨rfl, rfl, [], fun _ hx => (List.not_mem_nil hx).elim, h⟩

theorem Onward.around (h : Onward rules past l₀ l)
    (hi : l'.host.owner.indicator = l.host.owner.indicator) (ht : timing l' = timing l)
    (hq : l'.host.slots = l.host.slots) (hc : l'.seconds = l.seconds) :
    Onward rules past l₀ l' := by
  obtain ⟨hseconds, ha, news, hnews, hcourse⟩ := h
  refine ⟨hc.trans hseconds, by rw [hi, ha], news, hnews, hcourse.around hi ht hq ?_⟩
  rw [hc]
  exact rules.stays _

theorem Onward.shifted (h : Onward rules past l₀ l)
    (hi : l'.host.owner.indicator = l.host.owner.indicator)
    (ht : l'.host.owner.timers = l.host.owner.timers) (hc : l'.seconds = l.seconds)
    (hq : Shift (l.host.slots, l.queue) (l'.host.slots, l'.queue)) :
    Onward rules past l₀ l' := by
  obtain ⟨hseconds, ha, news, hnews, hcourse⟩ := h
  exact ⟨hc.trans hseconds, by rw [hi, ha], news, hnews, hcourse.shifted hi ht hc hq⟩

theorem isChange_of_changes {d : Delivery} : ∀ x ∈ changes l d, x.IsChange := by
  intro x hx
  cases d with
  | connection | tint | lock => cases hx
  | setting key v =>
    rw [changes] at hx
    split at hx
    · split at hx
      · rw [List.mem_singleton.mp hx]
        trivial
      · cases hx
    · cases hx

theorem Onward.heard {d : Delivery} (h : Onward rules past l₀ l)
    (hs : setup.reaches = fun _ => true) (hr : listen setup d l = .ok () l') :
    Onward rules past l₀ l' := by
  obtain ⟨hseconds, ha, news, hnews, hcourse⟩ := h
  have hreacted := react_ok hr
  refine ⟨hreacted.beside.seconds.trans hseconds, ?_, changes l d ++ news, ?_, ?_⟩
  · rw [hreacted.state, receive_attached hreacted.faultless]
    exact ha
  · intro x hx
    rcases List.mem_append.mp hx with hx | hx
    · exact isChange_of_changes x hx
    · exact hnews x hx
  · rw [List.append_assoc]
    exact hcourse.heard hs hr

theorem onward_hosts (hs : setup.reaches = fun _ => true) :
    Hosts setup (Onward rules past l₀) (fun _ _ => True) where
  doings := {
    file _ _ _ h := h.around rfl rfl rfl rfl
    notices _ _ h := h.around rfl rfl rfl rfl
    asked _ _ h := h.around rfl rfl rfl rfl
    halts _ _ _ := trivial
    memory _ _ h := h.around rfl rfl rfl rfl
    watches _ _ h := h.around rfl rfl rfl rfl
    disarms _ feed h := h.shifted rfl rfl rfl (.disarm feed)
    arms _ feed deadline id h := h.shifted rfl rfl rfl (.arm feed deadline id) }
  listens d l h := by
    cases hr : listen setup d l with
    | ok u m => exact h.heard hs hr
    | error e m => trivial
  remembers _ _ h := h.around rfl rfl rfl rfl

/-- An attachment is a joining, the deliveries of the collaborators, and a settling in. -/
theorem Course.attach (h : Course rules past l) (hs : setup.reaches = fun _ => true)
    (hr : Panel.attach setup l = .ok u l') : ∃ more, Course rules (more ++ past) l' := by
  simp only [Panel.attach, bind_ok, get_ok] at hr
  obtain ⟨_, _, ⟨rfl, rfl⟩, hr⟩ := hr
  split at hr
  · rename_i ha
    simp only [bind_ok, get_ok] at hr
    obtain ⟨_, j, hj, _, m, hm, _, _, ⟨rfl, rfl⟩, hr⟩ := hr
    have hjoined := h.joined hs (by simpa using ha) hj
    obtain ⟨-, hattached, news, hnews, hcourse⟩ :=
      (onward_hosts hs).openCollaborators.keeps j _ _ hm hjoined.onward
    have hstart : j.host.owner.indicator.attached = true := by
      rw [(react_ok hj).state, join_spec.1]
    have hsettled := hcourse.settled hs (hattached.trans hstart) ⟨news, past, rfl, hnews⟩ hr
    rw [List.append_cons] at hsettled
    exact ⟨_, hsettled⟩
  · obtain ⟨-, rfl⟩ := pure_ok.mp hr
    exact ⟨[], h⟩

theorem Course.operation (h : Course rules past l) (hs : setup.reaches = fun _ => true)
    {op : Operation} (hc : op = .tick → rules.called) (hr : op.act setup l = .ok () l') :
    ∃ more, Course rules (more ++ past) l' := by
  cases op with
  | attach => exact h.attach hs hr
  | detach => exact ⟨[.left], h.left hs hr⟩
  | deliver d => exact ⟨changes l d, h.heard hs hr⟩
  | tick =>
    cases ha : l.host.owner.indicator.attached with
    | true => exact ⟨[.ticked], h.called hs (hc rfl) ha hr⟩
    | false =>
      rcases tick_ok hr with ⟨-, rfl⟩ | ⟨ha', -⟩
      · exact ⟨[], h⟩
      · exact absurd (ha.symm.trans ha') Bool.false_ne_true

theorem tick_seconds (hr : tick setup l = .ok u l') : l'.seconds = l.seconds := by
  rcases tick_ok hr with ⟨-, rfl⟩ | ⟨-, reading, h⟩
  · rfl
  · exact h.beside.seconds

def CourseOn (rules : Rules τ) (past : List (Moment τ)) (l : Running τ) : Prop :=
  ∃ more, (∀ x ∈ more, x.IsChange ∨ x.IsPass) ∧ Course rules (more ++ past) l

theorem Course.on (h : Course rules past l) : CourseOn rules past l :=
  ⟨[], fun _ hx => (List.not_mem_nil hx).elim, h⟩

omit [TimeScale τ] in
theorem isPass_firing (deadline : τ) (kind : TimerKind) : (firing deadline kind).IsPass := by
  cases kind <;> trivial

theorem Course.fire {now : τ} {e : Entry τ Job} {q : Queue τ Job} (h : Course rules past l)
    (hs : setup.reaches = fun _ => true) (ht : l.queue.takeDue now = (some e, q))
    (hf : rules.fires e.deadline l.now)
    (hr : Panel.fire setup e { l with queue := q } = .ok () l') :
    CourseOn rules past l' ∧ l'.seconds = l.seconds := by
  cases hj : e.job with
  | own kind =>
    refine ⟨⟨[firing e.deadline kind], ?_, h.fired hs ht hj hf hr⟩, ?_⟩
    · intro x hx
      rw [List.mem_singleton.mp hx]
      exact Or.inr (isPass_firing _ kind)
    rw [Panel.fire, Station.fire, hj] at hr
    obtain ⟨m, hm, hr⟩ := fireOwn_ok hr
    have hseconds : m.seconds = l.seconds := by rw [hm]
    cases kind with
    | tick => exact (tick_seconds hr).trans hseconds
    | refresh => exact hr.beside.seconds.trans hseconds
  | poll feed id =>
    rw [Panel.fire, Station.fire, hj] at hr
    obtain ⟨_, m, hm, hr⟩ := bind_ok.mp hr
    let taken := Station.withSlots l (l.host.slots.release feed e.token, q)
    have hm' : m = taken := modify_ok.mp hm
    subst hm'
    have htaken : Onward rules past l taken := h.onward.shifted rfl rfl rfl (.take ht hj)
    obtain ⟨hseconds, -, news, hnews, hcourse⟩ :=
      ((onward_hosts hs).doings.poll (onward_hosts hs).listens feed id).keeps _ _ _ hr htaken
    exact ⟨⟨news, fun x hx => Or.inl (hnews x hx), hcourse⟩, hseconds⟩

theorem CourseOn.around (h : CourseOn rules past l)
    (hi : l'.host.owner.indicator = l.host.owner.indicator) (ht : timing l' = timing l)
    (hq : l'.host.slots = l.host.slots) (hc : rules.moves l.seconds l'.seconds) :
    CourseOn rules past l' := by
  obtain ⟨more, hmore, h⟩ := h
  exact ⟨more, hmore, h.around hi ht hq hc⟩

theorem CourseOn.shifted (h : CourseOn rules past l) {q : Queue τ Job}
    (hq : Shift (l.host.slots, l.queue) (l.host.slots, q)) :
    CourseOn rules past { l with queue := q } := by
  obtain ⟨more, hmore, h⟩ := h
  exact ⟨more, hmore, h.shifted rfl rfl rfl hq⟩

theorem CourseOn.fire {now : τ} {e : Entry τ Job} {q : Queue τ Job}
    (h : CourseOn rules past l) (hs : setup.reaches = fun _ => true)
    (ht : l.queue.takeDue now = (some e, q)) (hf : rules.fires e.deadline l.now)
    (hr : Panel.fire setup e { l with queue := q } = .ok () l') :
    CourseOn rules past l' ∧ l'.seconds = l.seconds := by
  obtain ⟨more, hmore, h⟩ := h
  obtain ⟨⟨new, hnew, hcourse⟩, hseconds⟩ := h.fire hs ht hf hr
  rw [← List.append_assoc] at hcourse
  refine ⟨⟨_, fun x hx => ?_, hcourse⟩, hseconds⟩
  rcases List.mem_append.mp hx with hx | hx
  · exact hnew x hx
  · exact hmore x hx

theorem turns_courseOn (hs : setup.reaches = fun _ => true) (past : List (Moment τ)) :
    Turns (CourseOn Rules.free past) (fun _ _ => True) (Panel.fire setup) where
  fires l now e q h ht := by
    cases hr : Panel.fire setup e { l with queue := q } with
    | ok u m => exact (h.fire hs ht trivial hr).1
    | error halt m => trivial
  idles _ _ _ h ht := h.shifted (.idle ht)
  tires _ _ := trivial

theorem le_later_left (a b : Rat) : a ≤ TimeScale.later a b := by
  rw [TimeScale.later]
  split
  · rename_i h
    have hab : a < b := of_decide_eq_true h
    exact hab.le
  · exact le_refl a

theorem le_later_right (a b : Rat) : b ≤ TimeScale.later a b := by
  rw [TimeScale.later]
  split
  · exact le_refl b
  · rename_i h
    have hab : ¬ a < b := fun hlt => h (decide_eq_true hlt)
    exact not_lt.mp hab

theorem Course.free_advance (h : Course Rules.free past l) (hs : setup.reaches = fun _ => true)
    {ms : τ} (hr : Panel.advance setup ms l = .ok u l') : CourseOn Rules.free past l' :=
  (ends_advance (turns_courseOn hs past) (fun _ h => h.shifted .settle)
    (fun _ _ h => h.around rfl rfl rfl trivial) _ ms).keeps l u l' hr h.on

section Strict

variable {past : List (Moment Rat)} {setup : Setup Rat} (hs : setup.reaches = fun _ => true)

include hs

/-- What is due at a time that the clock has reached does not fire early. -/
theorem turnsAt_courseOn (past : List (Moment Rat)) (d : Rat) :
    TurnsAt (fun l => CourseOn Rules.strict past l ∧ d ≤ l.now) (fun _ _ => True)
      (Panel.fire setup) d where
  fires l e q hl ht := by
    obtain ⟨⟨more, hmore, hcourse⟩, hd⟩ := hl
    have hdue : e.deadline ≤ d :=
      of_decide_eq_true (Queue.takeDue_some hcourse.inGear.sound ht).2.2.1
    cases hr : Panel.fire setup e { l with queue := q } with
    | ok u m =>
      have hon : CourseOn Rules.strict past l := ⟨more, hmore, hcourse⟩
      obtain ⟨hm, hseconds⟩ := hon.fire hs ht (hdue.trans hd) hr
      refine ⟨hm, ?_⟩
      rw [now, hseconds]
      exact hd
    | error halt m => trivial
  idles l q hl ht := ⟨hl.1.shifted (.idle ht), hl.2⟩
  tires _ _ := trivial

theorem catchUp_courseOn (past : List (Moment Rat)) (target : Rat) (turns : Nat) :
    Ends (CourseOn Rules.strict past) (fun _ _ => True)
      (catchUp (Panel.fire setup) target turns) := by
  induction turns with
  | zero => exact ends_throw fun _ _ => trivial
  | succ turns ih =>
    rw [catchUp]
    refine ends_bind (ends_bind (ends_modify fun l h => h.shifted .settle) fun _ =>
      ends_bind ends_get fun _ => ends_pure _) fun o => ?_
    cases o with
    | none => exact ends_pure _
    | some d =>
      refine ends_ite (fun l h => ?_) (ends_pure _)
      -- the clock is moved to the deadline before anything runs
      have hreached : d ≤ TimeScale.later l.seconds (d / 1000) * 1000 := by
        have hle := le_later_right l.seconds (d / 1000)
        linarith
      refine endsIn_bind (M := fun m => CourseOn Rules.strict past m ∧ d ≤ m.now)
        ⟨h.around rfl rfl rfl (le_later_left _ _), hreached⟩ fun _ m hm => ?_
      exact endsIn_bind ((turnsAt_courseOn hs past d).runDue _ 0 m hm) fun _ n hn => ih n hn.1

theorem Course.strict_advance {l l' : Running Rat} {u : Unit} (h : Course .strict past l) {ms : Rat}
    (hr : Panel.advance setup ms l = .ok u l') : CourseOn Rules.strict past l' := by
  have hends : Ends (CourseOn Rules.strict past) (fun _ _ => True) (Panel.advance setup ms) :=
    ends_bind ends_get fun l => ends_bind (catchUp_courseOn hs past _ _) fun _ =>
      ends_modify fun m hm => hm.around rfl rfl rfl (le_later_left _ _)
  exact hends.keeps l u l' hr h.on

end Strict

end TrafficIndicator.Panel
