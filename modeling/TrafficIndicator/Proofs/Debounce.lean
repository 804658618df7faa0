import TrafficIndicator.Proofs.Course

/-!
A change of the settings that reaches an attached indicator is shown by a refresh some time
later, unless a tick shows it before. So a refresh waits exactly while there are changes that
no tick and no refresh has shown, and it falls due that time after the last of them.
-/
namespace TrafficIndicator.Panel

open Loop Indicator

variable {τ : Type}

/-- The last change, if neither a tick nor a refresh came after it. -/
def unseen : List (Moment τ) → Option τ
  | .changed time _ :: _ => some time
  | _ => none

def Passed : List (Moment τ) → Prop
  | x :: _ => x.IsPass
  | [] => False

variable [TimeScale τ]

def showBy (time : τ) : τ := TimeScale.add time (TimeScale.delay (TimeScale.ofNat debounce))

structure Debounced (past : List (Moment τ)) (l : Running τ) : Prop where
  still : l.host.owner.indicator.attached = false → ∀ kind, due l.queue kind = none
  waiting : due l.queue .refresh = (unseen past).map showBy
  shown : l.host.owner.indicator.attached = true → Passed past → Current l.host.owner.indicator

variable {past : List (Moment τ)} {setup : Setup τ} {l l' : Running τ} {rules : Rules τ}

theorem Debounced.of_due (h : Debounced past l)
    (hi : l'.host.owner.indicator = l.host.owner.indicator) (hd : due l'.queue = due l.queue) :
    Debounced past l' := by
  refine ⟨?_, hd ▸ h.waiting, ?_⟩
  · rw [hi, hd]
    exact h.still
  · rw [hi]
    exact h.shown

section Reacting

variable (hs : setup.reaches = fun _ => true) (hg : InGear l)

include hs hg

theorem Debounced.joined (h : Debounced past l)
    (ha : l.host.owner.indicator.attached = false) (hr : Reacted setup Indicator.join l l') :
    Debounced (.joined :: past) l' := by
  have hd := (hr.due hs hg).2
  rw [join_spec.2] at hd
  have hi := hr.state
  rw [join_spec.1] at hi
  refine ⟨?_, ?_, fun _ => False.elim⟩
  · rw [hi]
    exact nofun
  · rw [hd]
    exact h.still ha .refresh

theorem Debounced.heard (h : Debounced past l) {d : Delivery}
    (hr : Reacted setup (fun i => i.receive d) l l') : Debounced (changes l d ++ past) l' := by
  have hheard := hr.heard hs hg
  generalize changes l d = news at hheard ⊢
  cases hheard with
  | quiet hd ha hsampler hcurrent =>
    refine ⟨?_, hd ▸ h.waiting, ?_⟩ <;> rw [ha]
    · rw [hd]
      exact h.still
    · exact fun ha hp => hcurrent ha (h.shown ha hp)
  | changed on ha ha' hrefresh htick hsampler =>
    refine ⟨?_, hrefresh, fun _ => False.elim⟩
    rw [ha']
    exact nofun

theorem Debounced.settled (h : Debounced past l) (ha : l.host.owner.indicator.attached = true)
    {armed : Bool} (hr : Reacted setup (fun i => i.settleIn armed) l l') : Debounced past l' := by
  obtain ⟨hf, hstate, ho⟩ := settleIn_spec hr.faultless
  obtain ⟨ρ, hρ⟩ := render_state (i := l.host.owner.indicator)
  have ha' : l'.host.owner.indicator.attached = true := by
    rw [hr.state, hstate, hρ]
    exact ha
  have hd : due l'.queue .refresh = due l.queue .refresh := by
    rw [(hr.due hs hg).2, ho]
    split <;> simp
  refine ⟨?_, ?_, ?_⟩
  · rw [ha']
    exact nofun
  · rw [hd]
    exact h.waiting
  · intro _ _
    rw [hr.state, hstate]
    exact render_current hf

theorem debounced_ticked (ha : l.host.owner.indicator.attached = true)
    {reading : Except Fault (Reading τ)} (hr : Reacted setup (fun i => i.tick reading) l l') :
    Debounced (.ticked :: past) l' := by
  obtain ⟨rates, sampler, -, hf, hstate, ho⟩ := tick_of_attached ha hr.faultless
  obtain ⟨ρ, hρ⟩ := render_state (i := l.host.owner.indicator.sampled rates sampler)
  have hd := (hr.due hs hg).2
  rw [ho] at hd
  refine ⟨?_, ?_, ?_⟩
  · rw [hr.state, hstate, hρ]
    exact fun hd => absurd (ha.symm.trans hd) Bool.false_ne_true.symm
  · change due l'.queue .refresh = none
    rw [hd]
    split <;> simp
  · intro _ _
    rw [hr.state, hstate]
    exact render_current hf

theorem debounced_refreshed (ha : l.host.owner.indicator.attached = true)
    (hn : due l.queue .refresh = none) (deadline : τ) (hr : Reacted setup Indicator.refresh l l') :
    Debounced (.refreshed deadline :: past) l' := by
  obtain ⟨hf, hstate, ho⟩ := refresh_of_attached ha hr.faultless
  obtain ⟨ρ, hρ⟩ := render_state (i := l.host.owner.indicator)
  have hd := (hr.due hs hg).2
  rw [ho] at hd
  refine ⟨?_, ?_, ?_⟩
  · rw [hr.state, hstate, hρ]
    exact fun hd => absurd (ha.symm.trans hd) Bool.false_ne_true.symm
  · change due l'.queue .refresh = none
    rw [hd]
    split <;> simp [hn]
  · intro _ _
    rw [hr.state, hstate]
    exact render_current hf

end Reacting

theorem Debounced.attached_of_take (h : Debounced past l) (hg : InGear l) {now : τ}
    {e : Entry τ Job} {q : Queue τ Job} {kind : TimerKind}
    (ht : l.queue.takeDue now = (some e, q)) (hj : e.job = .own kind) :
    l.host.owner.indicator.attached = true := by
  cases ha : l.host.owner.indicator.attached with
  | true => rfl
  | false =>
    have hdue := (hg.due_takeOwn ht hj).1
    rw [h.still ha kind] at hdue
    cases hdue

theorem Debounced.fired (h : Debounced past l) (hs : setup.reaches = fun _ => true)
    (hg : InGear l) {now : τ} {e : Entry τ Job} {q : Queue τ Job} {kind : TimerKind}
    (ht : l.queue.takeDue now = (some e, q)) (hj : e.job = .own kind)
    (hr : fire setup e { l with queue := q } = .ok () l') :
    Debounced (firing e.deadline kind :: past) l' := by
  have ha := h.attached_of_take hg ht hj
  rw [fire, Station.fire, hj] at hr
  obtain ⟨m, hm, hr⟩ := fireOwn_ok hr
  have hgm : InGear m := by
    rw [hm]
    exact hg.takeOwn ht hj
  have ham : m.host.owner.indicator.attached = true := by
    rw [hm]
    exact ha
  cases kind with
  | tick =>
    rcases tick_ok hr with ⟨hd, -⟩ | ⟨-, reading, hr⟩
    · exact absurd (hd.symm.trans ham) Bool.false_ne_true
    · exact debounced_ticked hs hgm ham hr
  | refresh =>
    refine debounced_refreshed hs hgm ham ?_ e.deadline hr
    rw [hm]
    exact congrFun (hg.due_takeOwn ht hj).2 .refresh

theorem Course.debounced (h : Course rules past l) : Debounced past l := by
  induction h with
  | @fresh l hi ht hs hq =>
    refine ⟨?_, ?_, ?_⟩
    · intro _ kind
      rw [hq]
      rfl
    · rw [hq]
      rfl
    · exact fun _ => False.elim
  | joined h hs ha hr ih => exact ih.joined hs h.inGear ha (react_ok hr)
  | heard h hs hr ih => exact ih.heard hs h.inGear (react_ok hr)
  | settled h hs ha ho hr ih => exact ih.settled hs h.inGear ha (react_ok hr)
  | called h hs hc ha hr ih =>
    rcases tick_ok hr with ⟨hd, -⟩ | ⟨-, reading, hr⟩
    · exact absurd (hd.symm.trans ha) Bool.false_ne_true
    · exact debounced_ticked hs h.inGear ha hr
  | fired h hs ht hj hf hr ih => exact ih.fired hs h.inGear ht hj hr
  | left h hs hr ih =>
    obtain ⟨-, hnone⟩ := due_detach hs h.inGear hr
    exact ⟨fun _ => hnone, hnone .refresh, fun _ => False.elim⟩
  | shifted h hi ht hc hq ih => exact ih.of_due hi (hq.geared h.inGear).2
  | around h hi ht hq hc ih => exact ih.of_due hi (congrArg (fun t => due t.2) ht)

/-- Every refresh of a course followed a change at once, and was due when that was to be
shown. -/
def Answered : List (Moment τ) → Prop
  | [] => True
  | .refreshed deadline :: older =>
    (unseen older).map showBy = some deadline ∧ Answered older
  | _ :: older => Answered older

theorem Answered.refreshed {newer older : List (Moment τ)} {deadline : τ}
    (h : Answered (newer ++ .refreshed deadline :: older)) :
    (unseen older).map showBy = some deadline := by
  induction newer with
  | nil => exact h.1
  | cons x newer ih =>
    apply ih
    cases x with
    | refreshed => exact h.2
    | joined | changed | ticked | left => exact h

theorem answered_changes {d : Delivery} (h : Answered past) : Answered (changes l d ++ past) := by
  have hchanges := isChange_of_changes (l := l) (d := d)
  generalize changes l d = news at hchanges ⊢
  induction news with
  | nil => exact h
  | cons x news ih =>
    have hx := hchanges x List.mem_cons_self
    have hrest := ih fun y hy => hchanges y (List.mem_cons_of_mem _ hy)
    cases x with
    | changed => exact hrest
    | joined | ticked | refreshed | left => exact hx.elim

theorem Course.answered (h : Course rules past l) : Answered past := by
  induction h with
  | fresh => trivial
  | joined h hs ha hr ih => exact ih
  | heard h hs hr ih => exact answered_changes ih
  | settled h hs ha ho hr ih => exact ih
  | called h hs hc ha hr ih => exact ih
  | @fired past l l' setup now e q kind h hs ht hj hf hr ih =>
    cases kind with
    | tick => exact ih
    | refresh =>
      refine ⟨?_, ih⟩
      rw [← h.debounced.waiting]
      exact (h.inGear.due_takeOwn ht hj).1
  | left h hs hr ih => exact ih
  | shifted h hi ht hc hq ih => exact ih
  | around h hi ht hq hc ih => exact ih

theorem showBy_exact (time : Rat) : showBy time = time + 1000 := rfl

theorem unseen_of_runDue {past : List (Moment Rat)} {l l' : Running Rat} {setup : Setup Rat}
    (h : Course .free past l) (hs : setup.reaches = fun _ => true) {now : Rat}
    {turns ran n : Nat} (hr : runDue (fire setup) now turns ran l = .ok n l') :
    ∃ more, (∀ x ∈ more, x.IsChange ∨ x.IsPass) ∧ Course .free (more ++ past) l' ∧
      ∀ time, unseen (more ++ past) = some time → now < time + 1000 := by
  obtain ⟨k, q, ⟨more, hmore, hk⟩, ht, rfl⟩ := runDue_ok (turns_courseOn hs past) h.on hr
  have hend : Course .free (more ++ past) { k with queue := q } :=
    hk.shifted rfl rfl rfl (.idle ht)
  refine ⟨more, hmore, hend, fun time hu => ?_⟩
  have hdue := hend.debounced.waiting
  rw [hu] at hdue
  obtain ⟨e, he, -, hd⟩ := hend.inGear.due_eq_some.mp hdue
  have hsorted := hend.inGear.sorted TimeScale.orders_exact
  have hlate := Queue.late_of_takeDue TimeScale.orders_exact trivial hsorted ht e he
  rw [hd] at hlate
  exact not_le.mp (of_decide_eq_false hlate)

/-- A refresh waits exactly while the last change is unseen: then one entry of the queue is a
refresh, and it is due a second after that change. A refresh that runs follows the last of the
changes that it shows, and was due a second after it. Where the last thing was a tick or a
refresh, the screen shows what the present settings ask for. Once the loop has run all that was
due a second after a change, a tick or a refresh has come after it, or a later change that is
still to be shown in time. -/
theorem refresh_waits_while_unseen {past : List (Moment Rat)} {l : Running Rat}
    (h : Course .free past l) :
    ((l.host.owner.timers.isArmed .refresh = true ↔ ∃ time, unseen past = some time) ∧
      (l.queue.live.filter fun e => e.job = .own .refresh).map Entry.deadline =
        (unseen past).toList.map (· + 1000)) ∧
      (∀ newer older deadline, past = newer ++ .refreshed deadline :: older →
        ∃ time, unseen older = some time ∧ deadline = time + 1000) ∧
      (l.host.owner.indicator.attached = true → Passed past → Current l.host.owner.indicator) ∧
      ∀ setup, (setup.reaches = fun _ => true) →
        (∀ op l', Operation.act setup op l = .ok () l' →
          ∃ more, Course .free (more ++ past) l') ∧
        (∀ ms l', advance setup ms l = .ok () l' → ∃ more, Course .free (more ++ past) l') ∧
        ∀ now turns ran n l', runDue (fire setup) now turns ran l = .ok n l' →
          ∃ more, Course .free (more ++ past) l' ∧
            ∀ time, unseen past = some time → time + 1000 ≤ now →
              (∃ x ∈ more, x.IsPass) ∨
                ∃ later, unseen (more ++ past) = some later ∧ now < later + 1000 := by
  have hd := h.debounced
  refine ⟨⟨?_, ?_⟩, ?_, hd.shown, fun setup hs => ⟨?_, ?_, ?_⟩⟩
  · rw [h.inGear.isArmed_iff, hd.waiting, Option.isSome_map, Option.isSome_iff_exists]
  · rw [h.inGear.waiting_eq, hd.waiting]
    cases unseen past with
    | none => rfl
    | some time => exact congrArg (fun t => [t]) (showBy_exact time)
  · rintro newer older deadline rfl
    obtain ⟨time, hu, ht⟩ := Option.map_eq_some_iff.mp h.answered.refreshed
    exact ⟨time, hu, ht.symm.trans (showBy_exact time)⟩
  · intro op l' hr
    exact h.operation hs (fun _ => trivial) hr
  · intro ms l' hr
    obtain ⟨more, -, hcourse⟩ := h.free_advance hs hr
    exact ⟨more, hcourse⟩
  · intro now turns ran n l' hr
    obtain ⟨more, hmore, hcourse, hlate⟩ := unseen_of_runDue h hs hr
    refine ⟨more, hcourse, fun time hu _ => ?_⟩
    cases hend : unseen (more ++ past) with
    | some later => exact Or.inr ⟨later, rfl, hlate later hend⟩
    | none =>
      left
      -- the last thing is no change, so it is none of those that came before
      cases more with
      | nil =>
        rw [List.nil_append, hu] at hend
        cases hend
      | cons x more =>
        refine ⟨x, List.mem_cons_self, (hmore x List.mem_cons_self).resolve_left fun hx => ?_⟩
        cases x with
        | changed => cases hend
        | joined | ticked | refreshed | left => exact hx

/-- Of two changes within a second one refresh waits, a second after the later one. -/
theorem refresh_after_burst :
    ∃ (past : List (Moment Rat)) (l : Running Rat), Course .free past l ∧
      l.host.owner.indicator.attached = true ∧ unseen past = some 700 ∧
      (l.queue.live.filter fun e => e.job = .own .refresh).map Entry.deadline = [1700] := by
  let go (act : Act Rat Unit) (l : Running Rat) := (Session.runThrough act l).1
  let l₀ : Running Rat := made {} {}
  let l₁ := go (react secluded Indicator.join) l₀
  let l₂ := go (listen secluded (.setting "networktraffic.enabled" (.bool true))) l₁
  let l₃ : Running Rat := { l₂ with seconds := 7 / 10 }
  let l₄ := go (listen secluded (.setting "networktraffic.unittype" (.int 1))) l₃
  have hreal : secluded.reaches = fun _ => true := rfl
  have h₀ : Course .free [] l₀ := .fresh rfl rfl rfl rfl
  have h₁ : Course .free _ l₁ :=
    h₀.joined hreal rfl (Session.runThrough_unit (by decide +kernel))
  have h₂ : Course .free _ l₂ :=
    h₁.heard hreal (Session.runThrough_unit (by decide +kernel))
  have h₃ : Course .free _ l₃ := h₂.around rfl rfl rfl trivial
  have h₄ : Course .free _ l₄ :=
    h₃.heard hreal (Session.runThrough_unit (by decide +kernel))
  obtain ⟨⟨-, hwaiting⟩, -⟩ := refresh_waits_while_unseen h₄
  have hunseen : unseen (changes l₃ (.setting "networktraffic.unittype" (.int 1)) ++ (changes l₁
      (.setting "networktraffic.enabled" (.bool true)) ++ [.joined])) = some (700 : Rat) := by
    decide +kernel
  refine ⟨_, l₄, h₄, by decide +kernel, hunseen, ?_⟩
  rw [hwaiting, hunseen]
  decide +kernel

end TrafficIndicator.Panel
