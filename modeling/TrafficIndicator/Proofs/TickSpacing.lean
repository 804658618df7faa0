import TrafficIndicator.Proofs.Debounce
import TrafficIndicator.Proofs.Detached

/-!
A reading that comes too soon after the one before gives no rates. The next tick is due no
earlier than one interval after the last reading that was kept, whatever rearms it in between,
and what rearms it earlier has forgotten that reading first. So where ticks come from the timer
alone, and no timer fires early, every tick but the first gives rates.
-/
namespace TrafficIndicator

namespace Sampler

variable {τ : Type} [TimeScale τ] {s s' : Sampler τ} {now : Reading τ} {rates : Option RateSample}

/-- A reading that is taken leaves itself or the one before as the baseline. -/
theorem take_ok (h : s.take now = .ok (rates, s')) :
    s'.interval = s.interval ∧ ∃ r, s'.baseline = some r ∧ (r = now ∨ s.baseline = some r) := by
  rw [take] at h
  cases hb : s.baseline with
  | none =>
    rw [hb] at h
    cases h
    exact ⟨rfl, now, rfl, Or.inl rfl⟩
  | some p =>
    rw [hb] at h
    dsimp only at h
    cases hr : rates? (some p) now s.interval with
    | error f =>
      rw [hr] at h
      cases h
    | ok o =>
      rw [hr] at h
      cases o with
      | none =>
        cases h
        exact ⟨rfl, p, hb, Or.inr rfl⟩
      | some r =>
        cases h
        exact ⟨rfl, now, rfl, Or.inl rfl⟩

end Sampler

theorem directionRate_exact (before now : Int) {elapsed : Rat} (h : elapsed ≠ 0) :
    ∃ r, directionRate before now elapsed = .ok r := by
  rw [directionRate]
  split
  · exact ⟨0, rfl⟩
  · exact ⟨_, if_neg h⟩

/-- A reading that comes a whole interval after the one before gives rates. -/
theorem Sampler.take_of_spaced {s : Sampler Rat} {p now : Reading Rat} (hi : 0 < s.interval)
    (hb : s.baseline = some p) (hp : p.time + s.interval ≤ now.time) :
    ∃ r s', s.take now = .ok (some r, s') := by
  have helapsed : s.interval ≤ p.elapsed now := by
    change s.interval ≤ now.time - p.time
    linarith
  have hpositive : 0 < p.elapsed now := lt_of_lt_of_le hi helapsed
  have hearly : p.tooEarly now s.interval = false := by
    have hzero : ¬ p.elapsed now ≤ 0 := not_le.mpr hpositive
    have hshort : ¬ p.elapsed now < s.interval * 19 / 20 := by
      rw [not_lt]
      linarith
    exact Bool.or_eq_false_iff.mpr ⟨decide_eq_false hzero, decide_eq_false hshort⟩
  obtain ⟨rx, hrx⟩ := directionRate_exact p.rx now.rx hpositive.ne'
  obtain ⟨tx, htx⟩ := directionRate_exact p.tx now.tx hpositive.ne'
  have hrates : rates? (some p) now s.interval = .ok (some ⟨rx, tx⟩) := by
    rw [rates?, hearly, Reading.rates, hrx, htx]
    rfl
  refine ⟨⟨rx, tx⟩, { s with baseline := some now }, ?_⟩
  rw [take, hb]
  dsimp only
  rw [hrates]

namespace Panel

open Loop Indicator

/-- No tick has come since the indicator joined last or was turned on last. -/
def Untaken {τ : Type} : List (Moment τ) → Prop
  | [] => False
  | .joined :: _ => True
  | .changed _ on :: older => on = true ∨ Untaken older
  | .ticked :: _ => False
  | .refreshed _ :: older => Untaken older
  | .left :: older => Untaken older

/-- The next tick is due an interval after the reading that is the baseline, or later, and there
is none where no tick has come. -/
structure Spaced (past : List (Moment Rat)) (l : Running Rat) : Prop where
  unbased : Unbased l
  first : l.host.owner.indicator.attached = true →
    (l.host.owner.indicator.sampler.baseline = none ↔ Untaken past)
  taken : ∀ r, l.host.owner.indicator.sampler.baseline = some r → r.time ≤ l.now
  spaced : ∀ r d, l.host.owner.indicator.sampler.baseline = some r →
    due l.queue .tick = some d → r.time + l.host.owner.indicator.sampler.interval ≤ d

variable {past past' : List (Moment Rat)} {setup : Setup Rat} {l l' : Running Rat}

theorem spaced_of_none (hb : l.host.owner.indicator.sampler.baseline = none)
    (hu : l.host.owner.indicator.attached = true → Untaken past) : Spaced past l where
  unbased _ := hb
  first ha := iff_of_true hb (hu ha)
  taken _ hr := nomatch hb.symm.trans hr
  spaced _ _ hr := nomatch hb.symm.trans hr

/-- While the sampler stays as it is, a tick may be armed anew an interval from now. -/
theorem Spaced.kept (h : Spaced past l)
    (hsampler : l'.host.owner.indicator.sampler = l.host.owner.indicator.sampler)
    (ha : l'.host.owner.indicator.attached = l.host.owner.indicator.attached)
    (hclock : l.now ≤ l'.now) (hu : Untaken past' ↔ Untaken past)
    (hd : ∀ d, due l'.queue .tick = some d → due l.queue .tick = some d ∨
      l.now + l.host.owner.indicator.sampler.interval ≤ d) : Spaced past' l' := by
  refine ⟨?_, ?_, ?_, ?_⟩
  · rw [Unbased, ha, hsampler]
    exact h.unbased
  · rw [ha, hsampler, hu]
    exact h.first
  · rw [hsampler]
    intro r hr
    exact (h.taken r hr).trans hclock
  · rw [hsampler]
    intro r d hr hdue
    rcases hd d hdue with hold | hnew
    · exact h.spaced r d hr hold
    · have htaken := h.taken r hr
      linarith

theorem Spaced.of_due (h : Spaced past l)
    (hi : l'.host.owner.indicator = l.host.owner.indicator) (hclock : l.now ≤ l'.now)
    (hd : due l'.queue = due l.queue) : Spaced past l' := by
  refine h.kept (by rw [hi]) (by rw [hi]) hclock Iff.rfl fun d hdue => Or.inl ?_
  rwa [← hd]

theorem le_deadline (l : Running Rat) (delay : Rat) : l.now + delay ≤ l.deadline delay := by
  have h := le_later_right 0 delay
  change l.now + delay ≤ l.now + TimeScale.later 0 delay
  linarith

section Reacting

variable (hs : setup.reaches = fun _ => true) (hg : InGear l)

include hs hg

theorem Spaced.heard (h : Spaced past l) {d : Delivery}
    (hr : Reacted setup (fun i => i.receive d) l l') : Spaced (changes l d ++ past) l' := by
  have hclock : l.now ≤ l'.now := by rw [now, now, hr.beside.seconds]
  have hheard := hr.heard hs hg
  generalize changes l d = news at hheard ⊢
  cases hheard with
  | quiet hd ha hsampler hcurrent =>
    exact h.kept hsampler ha hclock Iff.rfl fun d hdue => Or.inl (hd ▸ hdue)
  | changed on ha ha' hrefresh htick hsampler =>
    cases on with
    | true =>
      refine spaced_of_none ?_ fun _ => Or.inl rfl
      rw [hsampler]
      rfl
    | false =>
      have hu : Untaken (.changed l.now false :: past) ↔ Untaken past :=
        or_iff_right Bool.false_ne_true
      exact h.kept hsampler (ha'.trans ha.symm) hclock hu fun d hdue => Or.inl (htick rfl ▸ hdue)

/-- A tick leaves its reading or the one before as the baseline, and the next one comes an
interval from now. -/
theorem spaced_ticked (h : Spaced past l) (ha : l.host.owner.indicator.attached = true)
    {u : Unit} (hr : tick setup l = .ok u l') : Spaced (.ticked :: past) l' := by
  obtain ⟨reading, hreading, hr⟩ := tick_reads hr ha
  obtain ⟨rates, sampler, htake, -, hstate, ho⟩ := tick_of_attached ha hr.faultless
  obtain ⟨ρ, hρ⟩ := render_state (i := l.host.owner.indicator.sampled rates sampler)
  have hsampler : l'.host.owner.indicator.sampler = sampler := by
    rw [hr.state, hstate, hρ]
    rfl
  have hattached : l'.host.owner.indicator.attached = true := by
    rw [hr.state, hstate, hρ]
    exact ha
  have hnow : l'.now = l.now := by rw [now, now, hr.beside.seconds]
  have hd := (hr.due hs hg).2
  rw [ho] at hd
  cases reading with
  | error f => cases htake
  | ok reading =>
    obtain ⟨hinterval, r, hb, hor⟩ := Sampler.take_ok htake
    have htime : r.time ≤ l.now := by
      rcases hor with rfl | hold
      · exact (readCounters_time hreading).le
      · exact h.taken r hold
    refine ⟨?_, ?_, ?_, ?_⟩
    · exact fun hdetached => absurd (hattached.symm.trans hdetached) Bool.false_ne_true.symm
    · intro _
      rw [hsampler, hb]
      exact iff_of_false (Option.some_ne_none r) id
    · rw [hsampler, hb, hnow]
      rintro _ ⟨⟩
      exact htime
    · rw [hsampler, hb, hd]
      rintro _ d ⟨⟩ hdue
      have hle := le_deadline l sampler.interval
      split at hdue
      · have hdeadline : l.deadline sampler.interval = d := by simpa using hdue
        linarith
      · simp at hdue

theorem Spaced.refreshed (h : Spaced past l) (ha : l.host.owner.indicator.attached = true)
    (deadline : Rat) (hr : Reacted setup Indicator.refresh l l') :
    Spaced (.refreshed deadline :: past) l' := by
  obtain ⟨-, hstate, ho⟩ := refresh_of_attached ha hr.faultless
  obtain ⟨ρ, hρ⟩ := render_state (i := l.host.owner.indicator)
  have hd := (hr.due hs hg).2
  rw [ho] at hd
  refine h.kept ?_ ?_ ?_ Iff.rfl fun d hdue => Or.inr ?_
  · rw [hr.state, hstate, hρ]
  · rw [hr.state, hstate, hρ]
  · rw [now, now, hr.beside.seconds]
  · rw [hd] at hdue
    have hle := le_deadline l l.host.owner.indicator.sampler.interval
    split at hdue
    · have hdeadline : l.deadline l.host.owner.indicator.sampler.interval = d := by
        simpa using hdue
      linarith
    · simp at hdue

end Reacting

theorem untaken_of_opening (h : Opening past) : Untaken past := by
  obtain ⟨news, older, rfl, hnews⟩ := h
  induction news with
  | nil => trivial
  | cons x news ih =>
    have hx := hnews x List.mem_cons_self
    have hrest := ih fun y hy => hnews y (List.mem_cons_of_mem _ hy)
    cases x with
    | changed => exact Or.inr hrest
    | joined | ticked | refreshed | left => exact hx.elim

theorem Spaced.fired (h : Spaced past l) (hs : setup.reaches = fun _ => true) (hg : InGear l)
    (ha : l.host.owner.indicator.attached = true) {now : Rat} {e : Entry Rat Job}
    {q : Queue Rat Job} {kind : TimerKind} (ht : l.queue.takeDue now = (some e, q))
    (hj : e.job = .own kind) (hr : fire setup e { l with queue := q } = .ok () l') :
    Spaced (firing e.deadline kind :: past) l' := by
  obtain ⟨-, hq⟩ := hg.due_takeOwn ht hj
  rw [fire, Station.fire, hj] at hr
  obtain ⟨m, hm, hr⟩ := fireOwn_ok hr
  have hgm : InGear m := by
    rw [hm]
    exact hg.takeOwn ht hj
  have hsm : Spaced past m := by
    rw [hm]
    refine h.kept rfl rfl (le_refl _) Iff.rfl fun d hdue => Or.inl ?_
    -- the timer that is taken waits no more
    change due q .tick = some d at hdue
    rw [hq] at hdue
    cases kind with
    | tick => simp at hdue
    | refresh => simpa using hdue
  have ham : m.host.owner.indicator.attached = true := by
    rw [hm]
    exact ha
  cases kind with
  | tick => exact spaced_ticked hs hgm hsm ham hr
  | refresh => exact hsm.refreshed hs hgm ham e.deadline hr

theorem Course.spaced (h : Course .strict past l) : Spaced past l := by
  induction h with
  | fresh hi ht hs hq =>
    refine spaced_of_none ?_ fun ha => ?_
    · rw [hi]
      rfl
    · rw [hi] at ha
      cases ha
  | joined h hs ha hr ih =>
    refine spaced_of_none ?_ fun _ => trivial
    rw [(react_ok hr).state, join_spec.1]
    exact ih.unbased ha
  | heard h hs hr ih => exact ih.heard hs h.inGear (react_ok hr)
  | @settled past l l' setup h hs ha ho hr ih =>
    obtain ⟨-, hstate, -⟩ := settleIn_spec (react_ok hr).faultless
    obtain ⟨ρ, hρ⟩ := render_state (i := l.host.owner.indicator)
    have hu := untaken_of_opening ho
    refine spaced_of_none ?_ fun _ => hu
    rw [(react_ok hr).state, hstate, hρ]
    exact (ih.first ha).mpr hu
  | called h hs hc => exact hc.elim
  | fired h hs ht hj hf hr ih =>
    have ha := h.debounced.attached_of_take h.inGear ht hj
    exact ih.fired hs h.inGear ha ht hj hr
  | @left past l l' setup h hs hr ih =>
    obtain ⟨k, hk, howner⟩ := detach_total setup l
    obtain rfl : k = l' := by
      rw [hk] at hr
      cases hr
      rfl
    refine spaced_of_none ?_ fun ha => ?_
    · rw [howner]
      dsimp only
      rw [leave_spec.1]
      split
      · rfl
      · rename_i ha
        exact ih.unbased (by simpa using ha)
    · rw [howner] at ha
      exact absurd (leave_spec.2.2.symm.trans ha) Bool.false_ne_true
  | @shifted past l l' h hi ht hc hq ih =>
    exact ih.of_due hi (by rw [now, now, hc]) (hq.geared h.inGear).2
  | @around past l l' h hi ht hq hc ih =>
    refine ih.of_due hi ?_ (congrArg (fun t => due t.2) ht)
    have hle : l.seconds ≤ l'.seconds := hc
    change l.seconds * 1000 ≤ l'.seconds * 1000
    linarith

/-- A tick keeps what taking its reading makes of the sampler, and shows the rates if there are
any. -/
theorem ticked_sample {u : Unit} {reading : Reading Rat} {rates : Option RateSample}
    {s : Sampler Rat} (h : tick setup l = .ok u l') (ha : l.host.owner.indicator.attached = true)
    (hr : readCounters setup l = .ok (.ok reading) l)
    (ht : l.host.owner.indicator.sampler.take reading = .ok (rates, s)) :
    l'.host.owner.indicator.sampler = s ∧
      l'.host.owner.indicator.sample = rates.getD l.host.owner.indicator.sample := by
  obtain ⟨reading', hreading, hreacted⟩ := tick_reads h ha
  obtain rfl : reading' = .ok reading := by
    rw [hr] at hreading
    cases hreading
    rfl
  obtain ⟨rates', s', htake, -, hstate, -⟩ := tick_of_attached ha hreacted.faultless
  obtain ⟨ρ, hρ⟩ := render_state (i := l.host.owner.indicator.sampled rates' s')
  have hsame : (rates', s') = (rates, s) := Except.ok.inj (htake.symm.trans ht)
  obtain ⟨rfl, rfl⟩ := Prod.mk.inj hsame
  rw [hreacted.state, hstate, hρ]
  exact ⟨rfl, rfl⟩

/-- The reading of a timer that is due gives rates, unless there is no baseline. -/
theorem Spaced.take (h : Spaced past l) (hi : 0 < l.host.owner.indicator.sampler.interval)
    {deadline : Rat} (hdue : due l.queue .tick = some deadline) {reading : Reading Rat}
    (hreached : deadline ≤ reading.time) :
    ∃ rates s, l.host.owner.indicator.sampler.take reading = .ok (rates, s) ∧
      (rates = none ↔ l.host.owner.indicator.sampler.baseline = none) := by
  cases hb : l.host.owner.indicator.sampler.baseline with
  | none => exact ⟨none, _, by rw [Sampler.take, hb], iff_of_true rfl rfl⟩
  | some r =>
    have hspaced := (h.spaced r deadline hb hdue).trans hreached
    obtain ⟨rates, s, htake⟩ := Sampler.take_of_spaced hi hb hspaced
    exact ⟨some rates, s, htake, iff_of_false (Option.some_ne_none _) (Option.some_ne_none _)⟩

/-- Where ticks come from the timer alone, the clock never goes back and no timer fires early,
the reading of a tick gives no rates only where there is no baseline, and there is none only
until the first tick after the indicator joined or was turned on. -/
theorem tick_measures_unless_first (h : Course .strict past l)
    (hi : 0 < l.host.owner.indicator.sampler.interval) {time : Rat} {e : Entry Rat Job}
    {q : Queue Rat Job} (ht : l.queue.takeDue time = (some e, q)) (hj : e.job = .own .tick)
    (hd : e.deadline ≤ l.now) (hs : setup.reaches = fun _ => true) {reading : Reading Rat}
    (hr : readCounters setup l = .ok (.ok reading) l) :
    let sampler := l.host.owner.indicator.sampler
    (∃ rates s, sampler.take reading = .ok (rates, s) ∧
      (rates = none ↔ sampler.baseline = none) ∧ (sampler.baseline = none ↔ Untaken past) ∧
      ∀ l', fire setup e { l with queue := q } = .ok () l' →
        Course .strict (.ticked :: past) l' ∧ l'.host.owner.indicator.sampler = s ∧
          l'.host.owner.indicator.sample = rates.getD l.host.owner.indicator.sample) ∧
      (∀ op l', op ≠ .tick → Operation.act setup op l = .ok () l' →
        ∃ more, Course .strict (more ++ past) l') ∧
      ∀ ms l', advance setup ms l = .ok () l' → ∃ more, Course .strict (more ++ past) l' := by
  have ha := h.debounced.attached_of_take h.inGear ht hj
  have hdue := (h.inGear.due_takeOwn ht hj).1
  have hreached : e.deadline ≤ reading.time := by
    rw [readCounters_time hr]
    exact hd
  obtain ⟨rates, s, htake, hnone⟩ := h.spaced.take hi hdue hreached
  refine ⟨⟨rates, s, htake, hnone, h.spaced.first ha, fun l' hf => ?_⟩, ?_, ?_⟩
  · refine ⟨h.fired hs ht hj hd hf, ?_⟩
    rw [fire, Station.fire, hj] at hf
    obtain ⟨m, hm, hf⟩ := fireOwn_ok hf
    have hb : Beside l m := by
      rw [hm]
      exact ⟨rfl, rfl, rfl, rfl, rfl, rfl, rfl⟩
    have hsame : m.host.owner.indicator = l.host.owner.indicator := by rw [hm]
    rw [← hsame] at ha htake ⊢
    exact ticked_sample hf ha (readCounters_beside hb hr) htake
  · intro op l' hop hact
    exact h.operation hs (fun htick => absurd htick hop) hact
  · intro ms l' hadvance
    obtain ⟨more, -, hcourse⟩ := Course.strict_advance hs h hadvance
    exact ⟨more, hcourse⟩

/-- Between two turns the clock may move on and the counters may change. -/
theorem Course.recounted (h : Course .strict past l) {seconds : Rat} (hclock : l.seconds ≤ seconds)
    (counters : CounterFeed) : Course .strict past { l with
      seconds := seconds
      host := { l.host with owner := { l.host.owner with counters := counters } } } :=
  h.around rfl rfl rfl hclock

/-- The second tick of an indicator, an interval after the first, gives rates. -/
theorem second_tick_measures :
    ∃ (past : List (Moment Rat)) (l : Running Rat) (e : Entry Rat Job) (q : Queue Rat Job)
      (rates : RateSample) (s : Sampler Rat), Course .strict past l ∧
      l.queue.takeDue 2000 = (some e, q) ∧ e.job = .own .tick ∧ e.deadline ≤ l.now ∧
      ¬ Untaken past ∧
      l.host.owner.indicator.sampler.take ⟨4000, 0, l.now⟩ = .ok (some rates, s) := by
  let go (act : Act Rat Unit) (l : Running Rat) := (Session.runThrough act l).1
  let l₀ : Running Rat := made { enabled := true } {}
  let l₁ := go (attach secluded) l₀
  let l₂ := go (advance secluded 1500) l₁
  let l₃ : Running Rat := { l₂ with
    seconds := 2
    host := { l₂.host with owner := { l₂.host.owner with counters := .scripted 4000 0 none } } }
  have hreal : secluded.reaches = fun _ => true := rfl
  have h₀ : Course .strict [] l₀ := .fresh rfl rfl rfl rfl
  obtain ⟨_, h₁⟩ : ∃ past, Course .strict (past ++ []) l₁ :=
    h₀.attach hreal (Session.runThrough_unit (by decide +kernel))
  obtain ⟨_, -, h₂⟩ : CourseOn .strict _ l₂ :=
    Course.strict_advance hreal h₁ (Session.runThrough_unit (by decide +kernel))
  have hclock : l₂.seconds ≤ 2 := by decide +kernel
  have h₃ : Course .strict _ l₃ := h₂.recounted hclock (.scripted 4000 0 none)
  have hjob : (l₃.queue.takeDue 2000).1.map Entry.job = some (.own .tick) := by decide +kernel
  have hdeadline : (l₃.queue.takeDue 2000).1.map Entry.deadline = some 2000 := by decide +kernel
  have hread : readCounters secluded l₃ = .ok (.ok ⟨4000, 0, l₃.now⟩) l₃ := rfl
  have hinterval : 0 < l₃.host.owner.indicator.sampler.interval := by decide +kernel
  have hbaseline : ¬ l₃.host.owner.indicator.sampler.baseline = none := by decide +kernel
  have hnow : l₃.now = 2000 := by decide +kernel
  clear_value l₃
  obtain ⟨e, he, hj⟩ := Option.map_eq_some_iff.mp hjob
  rw [he] at hdeadline
  have hreached : e.deadline ≤ l₃.now := by
    rw [Option.some.inj hdeadline, hnow]
  have htake : l₃.queue.takeDue 2000 = (some e, (l₃.queue.takeDue 2000).2) := Prod.ext he rfl
  obtain ⟨⟨rates, s, hrates, hnone, huntaken, -⟩, -⟩ :=
    tick_measures_unless_first h₃ hinterval htake hj hreached rfl hread
  obtain ⟨r, rfl⟩ := Option.ne_none_iff_exists'.mp (hnone.not.mpr hbaseline)
  exact ⟨_, l₃, e, _, r, s, h₃, htake, hj, hreached, huntaken.not.mp hbaseline, hrates⟩

end Panel

end TrafficIndicator
