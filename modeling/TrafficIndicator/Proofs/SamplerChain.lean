import Mathlib.Algebra.BigOperators.Group.List.Basic
import TrafficIndicator.Proofs.RoundedTime
import TrafficIndicator.Rate.Sampler

/-!
Whatever a sampler is asked for, its baseline moves exactly when it returns a sample, so the
samples returned since the last reset are the links of a chain of readings, each from where the
one before ended. The chain begins with the first reading that succeeded and ends with the
baseline, and of counters that never go back no growth in between is lost or counted twice.
-/
namespace TrafficIndicator.Sampler

variable {τ : Type}

/-- What a sampler is asked for: a sample, from a reading that may have failed, to forget the
baseline, or to go by another interval. -/
inductive Call (τ : Type) where
  | sample (reading : Except Fault (Reading τ))
  | reset
  | retime (interval : τ)

/-- The readings since the last reset that succeeded, the latest first. -/
def Call.taken : List (Call τ) → List (Reading τ)
  | [] => []
  | .sample (.ok now) :: earlier => now :: taken earlier
  | .sample (.error _) :: earlier => taken earlier
  | .reset :: _ => []
  | .retime _ :: earlier => taken earlier

structure Link (τ : Type) where
  previous : Reading τ
  now : Reading τ
  interval : τ
  rates : RateSample

def Link.growth (counter : Reading τ → Int) (l : Link τ) : Nat :=
  (counter l.now - counter l.previous).toNat

inductive Chain (first : Reading τ) : List (Link τ) → Reading τ → Prop where
  | start : Chain first [] first
  | link (l : Link τ) {links : List (Link τ)} (h : Chain first links l.previous) :
    Chain first (l :: links) l.now

theorem Chain.sum_growth {first last : Reading τ} {links : List (Link τ)}
    (h : Chain first links last) (counter : Reading τ → Int)
    (hgrown : ∀ l ∈ links, counter l.previous ≤ counter l.now) :
    ((links.map (Link.growth counter)).sum : Int) = counter last - counter first := by
  induction h with
  | start => simp
  | link l h ih =>
    have hl : counter l.previous ≤ counter l.now := hgrown l List.mem_cons_self
    rw [List.map_cons, List.sum_cons, Nat.cast_add,
      ih fun l' hl' => hgrown l' (List.mem_cons_of_mem _ hl'), Link.growth]
    omega

section Answers

variable [TimeScale τ]

def answer (s : Sampler τ) : Call τ → Except Fault (Option RateSample) × Sampler τ
  | .sample reading =>
    match reading.bind s.take with
    | .error f => (.error f, s)
    | .ok (rates, after) => (.ok rates, after)
  | .reset => (.ok none, s.reset)
  | .retime interval => (.ok none, { s with interval := interval })

def after (start : Sampler τ) (calls : List (Call τ)) : Sampler τ :=
  calls.foldr (fun c s => (s.answer c).2) start

def link? (s : Sampler τ) : Except Fault (Reading τ) → Option (Link τ)
  | .error _ => none
  | .ok now =>
    match s.baseline, (s.answer (.sample (.ok now))).1 with
    | some previous, .ok (some rates) => some ⟨previous, now, s.interval, rates⟩
    | _, _ => none

def links (start : Sampler τ) : List (Call τ) → List (Link τ)
  | [] => []
  | .sample reading :: earlier =>
    ((start.after earlier).link? reading).toList ++ links start earlier
  | .reset :: _ => []
  | .retime _ :: earlier => links start earlier

theorem answer_first {s : Sampler τ} (hb : s.baseline = none) (now : Reading τ) :
    s.answer (.sample (.ok now)) = (.ok none, { s with baseline := some now }) := by
  simp only [answer, Except.bind, take, hb]

inductive Outcome (s : Sampler τ) (reading : Except Fault (Reading τ)) :
    Except Fault (Option RateSample) × Sampler τ → Option (Link τ) → Prop where
  | unread (f : Fault) (hr : reading = .error f) : Outcome s reading (.error f, s) none
  | unrated (f : Fault) (previous : Reading τ) (hb : s.baseline = some previous) :
    Outcome s reading (.error f, s) none
  | first (now : Reading τ) (hr : reading = .ok now) (hb : s.baseline = none) :
    Outcome s reading (.ok none, { s with baseline := some now }) none
  | skipped (previous : Reading τ) (hb : s.baseline = some previous) :
    Outcome s reading (.ok none, s) none
  | returned (l : Link τ) (hr : reading = .ok l.now) (hb : s.baseline = some l.previous)
    (hi : s.interval = l.interval)
    (hrates : rates? (some l.previous) l.now l.interval = .ok (some l.rates)) :
    Outcome s reading (.ok (some l.rates), { s with baseline := some l.now }) (some l)

theorem outcome (s : Sampler τ) (reading : Except Fault (Reading τ)) :
    Outcome s reading (s.answer (.sample reading)) (s.link? reading) := by
  cases reading with
  | error f => exact .unread f rfl
  | ok now =>
    cases hb : s.baseline with
    | none =>
      have hl : s.link? (.ok now) = none := by simp only [link?, hb]
      rw [answer_first hb, hl]
      exact .first now rfl hb
    | some previous =>
      rcases hr : rates? (some previous) now s.interval with f | _ | rates
      · have ha : s.answer (.sample (.ok now)) = (.error f, s) := by
          simp only [answer, Except.bind, take, hb, hr]
        have hl : s.link? (.ok now) = none := by simp only [link?, hb, ha]
        rw [ha, hl]
        exact .unrated f previous hb
      · have ha : s.answer (.sample (.ok now)) = (.ok none, s) := by
          simp only [answer, Except.bind, take, hb, hr]
        have hl : s.link? (.ok now) = none := by simp only [link?, hb, ha]
        rw [ha, hl]
        exact .skipped previous hb
      · have ha : s.answer (.sample (.ok now)) =
            (.ok (some rates), { s with baseline := some now }) := by
          simp only [answer, Except.bind, take, hb, hr]
        have hl : s.link? (.ok now) = some ⟨previous, now, s.interval, rates⟩ := by
          simp only [link?, hb, ha]
        rw [ha, hl]
        exact .returned ⟨previous, now, s.interval, rates⟩ rfl hb rfl hr

theorem answer_failed {s : Sampler τ} {reading : Except Fault (Reading τ)} {f : Fault}
    (h : (s.answer (.sample reading)).1 = .error f) : (s.answer (.sample reading)).2 = s := by
  have ho := outcome s reading
  generalize s.answer (.sample reading) = a at ho h ⊢
  generalize s.link? reading = l? at ho
  cases ho with
  | unread | unrated => rfl
  | _ => cases h

theorem answer_skipped {s : Sampler τ} {reading : Except Fault (Reading τ)} {previous : Reading τ}
    (hb : s.baseline = some previous) (h : (s.answer (.sample reading)).1 = .ok none) :
    (s.answer (.sample reading)).2 = s := by
  have ho := outcome s reading
  generalize s.answer (.sample reading) = a at ho h ⊢
  generalize s.link? reading = l? at ho
  cases ho with
  | unread | unrated => cases h
  | first now hr hnone =>
    rw [hb] at hnone
    cases hnone
  | skipped => rfl
  | returned => cases h

theorem answer_returned {s : Sampler τ} {reading : Except Fault (Reading τ)} {rates : RateSample}
    (h : (s.answer (.sample reading)).1 = .ok (some rates)) :
    ∃ l, s.link? reading = some l ∧ l.rates = rates ∧ l.interval = s.interval ∧
      s.baseline = some l.previous ∧ reading = .ok l.now ∧
      (s.answer (.sample reading)).2 = { s with baseline := some l.now } := by
  have ho := outcome s reading
  generalize s.answer (.sample reading) = a at ho h ⊢
  generalize s.link? reading = l? at ho ⊢
  cases ho with
  | returned l hr hb hi =>
    cases h
    exact ⟨l, rfl, rfl, hi.symm, hb, hr, rfl⟩
  | _ => cases h

structure Traced (taken : List (Reading τ)) (links : List (Link τ))
    (baseline : Option (Reading τ)) : Prop where
  unbased : baseline = none → taken = [] ∧ links = []
  mem : ∀ last, baseline = some last → last ∈ taken
  chain : ∀ last, baseline = some last →
    ∃ first, taken.getLast? = some first ∧ Chain first links last

variable {readings : List (Reading τ)} {ls : List (Link τ)} {baseline : Option (Reading τ)}

omit [TimeScale τ] in
theorem Traced.kept {last : Reading τ} (h : Traced readings ls (some last)) (now : Reading τ) :
    Traced (now :: readings) ls (some last) := by
  refine ⟨nofun, fun last' hl => List.mem_cons_of_mem _ (h.mem last' hl), fun last' hl => ?_⟩
  obtain ⟨first, hfirst, hchain⟩ := h.chain last' hl
  refine ⟨first, ?_, hchain⟩
  rw [List.getLast?_cons, hfirst]
  rfl

omit [TimeScale τ] in
theorem Traced.begun (h : Traced readings ls none) (now : Reading τ) :
    Traced (now :: readings) ls (some now) := by
  obtain ⟨rfl, rfl⟩ := h.unbased rfl
  refine ⟨nofun, ?_, ?_⟩
  · rintro _ ⟨⟩
    exact List.mem_cons_self
  · rintro _ ⟨⟩
    exact ⟨now, rfl, .start⟩

omit [TimeScale τ] in
theorem Traced.linked (l : Link τ) (h : Traced readings ls (some l.previous)) :
    Traced (l.now :: readings) (l :: ls) (some l.now) := by
  refine ⟨nofun, ?_, ?_⟩
  · rintro _ ⟨⟩
    exact List.mem_cons_self
  · rintro _ ⟨⟩
    obtain ⟨first, hfirst, hchain⟩ := h.chain _ rfl
    refine ⟨first, ?_, .link l hchain⟩
    rw [List.getLast?_cons, hfirst]
    rfl

theorem Traced.taken {s : Sampler τ} (h : Traced readings ls s.baseline) (now : Reading τ) :
    Traced (now :: readings) ((s.link? (.ok now)).toList ++ ls)
      (s.answer (.sample (.ok now))).2.baseline := by
  have ho := outcome s (.ok now)
  generalize s.answer (.sample (.ok now)) = a at ho ⊢
  generalize s.link? (.ok now) = l? at ho ⊢
  cases ho with
  | unread f hr => cases hr
  | unrated f previous hb =>
    rw [hb] at h ⊢
    exact h.kept now
  | first now' hr hb =>
    cases hr
    rw [hb] at h
    exact h.begun now
  | skipped previous hb =>
    rw [hb] at h ⊢
    exact h.kept now
  | returned l hr hb =>
    cases hr
    rw [hb] at h
    exact h.linked l

theorem traced (start : Sampler τ) (hb : start.baseline = none) (calls : List (Call τ)) :
    Traced (Call.taken calls) (links start calls) (start.after calls).baseline := by
  induction calls with
  | nil =>
    rw [after, List.foldr_nil, hb]
    exact ⟨fun _ => ⟨rfl, rfl⟩, nofun, nofun⟩
  | cons c earlier ih =>
    rcases c with (f | now) | _ | interval
    · exact ih
    · exact ih.taken now
    · exact ⟨fun _ => ⟨rfl, rfl⟩, nofun, nofun⟩
    · exact ih

/-- The readings of each link succeeded since the last reset, one after the other. -/
theorem growing (start : Sampler τ) (hb : start.baseline = none) (counter : Reading τ → Int)
    (calls : List (Call τ))
    (h : (Call.taken calls).Pairwise fun later earlier => counter earlier ≤ counter later) :
    ∀ l ∈ links start calls, counter l.previous ≤ counter l.now := by
  induction calls with
  | nil => exact nofun
  | cons c earlier ih =>
    rcases c with (f | now) | _ | interval
    · exact ih h
    · obtain ⟨hnow, hearlier⟩ := List.pairwise_cons.mp h
      intro l hl
      rcases List.mem_append.mp hl with hnew | hold
      · have ho := outcome (start.after earlier) (.ok now)
        have ht := traced start hb earlier
        generalize (start.after earlier).link? (.ok now) = l? at ho hnew
        generalize (start.after earlier).answer (.sample (.ok now)) = a at ho
        cases ho with
        | returned l' hr hbase =>
          cases hr
          cases List.mem_singleton.mp hnew
          exact hnow _ (ht.mem _ hbase)
        | _ => cases hnew
      · exact ih hearlier l hold
    · exact nofun
    · exact ih h

end Answers

def Call.Finite : Call Float → Prop
  | .sample (.ok now) => now.time.isFinite = true
  | .sample (.error _) => True
  | .reset => True
  | .retime interval => interval.isFinite = true

instance : DecidablePred Call.Finite
  | .sample (.ok now) => inferInstanceAs (Decidable (now.time.isFinite = true))
  | .sample (.error _) => .isTrue trivial
  | .reset => .isTrue trivial
  | .retime interval => inferInstanceAs (Decidable (interval.isFinite = true))

/-- What holds of a returned sample: it is what its readings amount to, no rate is negative, none
is positive where the counter did not grow, and time passed, by the tolerance no less than the
interval. -/
structure Link.Sound (l : Link Float) : Prop where
  computed : rates? (some l.previous) l.now l.interval = .ok (some l.rates)
  nonneg : 0 ≤ l.rates.rx ∧ 0 ≤ l.rates.tx
  rx_idle : l.now.rx ≤ l.previous.rx → l.rates.rx = 0
  tx_idle : l.now.tx ≤ l.previous.tx → l.rates.tx = 0
  elapsed_pos : 0 < l.previous.elapsed l.now
  tolerated_le : l.interval * 0.95 ≤ l.previous.elapsed l.now

theorem directionRate_eq_zero {before now : Int} (elapsed : Float) (h : now ≤ before) :
    directionRate before now elapsed = .ok 0 := by
  rw [directionRate]
  exact if_pos (by omega)

theorem directionRate_nonneg {before now rate : Int} {elapsed : Float} (h : 0 < elapsed)
    (hr : directionRate before now elapsed = .ok rate) : 0 ≤ rate := by
  rw [directionRate] at hr
  split at hr
  · cases hr
    exact le_rfl
  · exact Rounded.perSecond_nonneg h hr

theorem of_rates? {previous now : Reading Float} {interval : Float} {rates : RateSample}
    (h : rates? (some previous) now interval = .ok (some rates)) :
    previous.tooEarly now interval = false ∧ previous.rates now = .ok rates := by
  rw [rates?] at h
  split_ifs at h with hearly
  · cases h
  · refine ⟨Bool.eq_false_iff.mpr hearly, ?_⟩
    cases hr : previous.rates now <;> rw [hr] at h <;> cases h
    rfl

theorem of_not_tooEarly {previous now : Reading Float} {interval : Float}
    (hp : previous.time.isFinite = true) (hn : now.time.isFinite = true)
    (hi : interval.isFinite = true) (h : previous.tooEarly now interval = false) :
    0 < previous.elapsed now ∧ interval * 0.95 ≤ previous.elapsed now := by
  have he : (previous.elapsed now).isNaN = false := Rounded.isNaN_sub hn hp
  have ht : (interval * 0.95).isNaN = false := Rounded.isNaN_mul hi (by decide)
  obtain ⟨hpos, hlate⟩ := Bool.or_eq_false_iff.mp h
  refine ⟨?_, (Rounded.not_lt_iff he ht).mp (of_decide_eq_false hlate)⟩
  by_contra hnot
  exact of_decide_eq_false hpos ((Rounded.not_lt_iff (by decide) he).mp hnot)

theorem Link.sound {l : Link Float} (hp : l.previous.time.isFinite = true)
    (hn : l.now.time.isFinite = true) (hi : l.interval.isFinite = true)
    (h : rates? (some l.previous) l.now l.interval = .ok (some l.rates)) : l.Sound := by
  obtain ⟨hearly, hrates⟩ := of_rates? h
  obtain ⟨hpos, htolerated⟩ := of_not_tooEarly hp hn hi hearly
  rw [Reading.rates] at hrates
  split at hrates
  · cases hrates
  split at hrates
  · cases hrates
  rename_i rx hrx _ tx htx
  obtain ⟨previous, now, interval, rates⟩ := l
  cases hrates
  refine ⟨h, ⟨directionRate_nonneg hpos hrx, directionRate_nonneg hpos htx⟩, ?_, ?_, hpos,
    htolerated⟩
  · intro hle
    rw [directionRate_eq_zero _ hle] at hrx
    exact (Except.ok.inj hrx).symm
  · intro hle
    rw [directionRate_eq_zero _ hle] at htx
    exact (Except.ok.inj htx).symm

structure Timed (s : Sampler Float) : Prop where
  interval : s.interval.isFinite = true
  baseline : ∀ p ∈ s.baseline, p.time.isFinite = true

theorem Timed.answer {s : Sampler Float} (h : s.Timed) {c : Call Float} (hc : c.Finite) :
    (s.answer c).2.Timed := by
  rcases c with reading | _ | interval
  · have ho := outcome s reading
    generalize s.answer (.sample reading) = a at ho ⊢
    generalize s.link? reading = l? at ho
    have hnow (now : Reading Float) (hr : reading = .ok now) :
        Timed { s with baseline := some now } := by
      subst hr
      refine ⟨h.interval, ?_⟩
      rintro _ ⟨⟩
      exact hc
    cases ho with
    | unread | unrated | skipped => exact h
    | first now hr => exact hnow now hr
    | returned l hr => exact hnow l.now hr
  · exact ⟨h.interval, nofun⟩
  · exact ⟨hc, h.baseline⟩

theorem Timed.after {start : Sampler Float} (h : start.Timed) {calls : List (Call Float)}
    (hc : ∀ c ∈ calls, c.Finite) : (start.after calls).Timed := by
  induction calls with
  | nil => exact h
  | cons c earlier ih =>
    obtain ⟨hfinite, hearlier⟩ := List.forall_mem_cons.mp hc
    exact (ih hearlier).answer hfinite

theorem Timed.sound {s : Sampler Float} (h : s.Timed) {reading : Except Fault (Reading Float)}
    (hc : Call.Finite (.sample reading)) : ∀ l ∈ s.link? reading, l.Sound := by
  intro l hl
  have ho := outcome s reading
  generalize s.answer (.sample reading) = a at ho
  generalize s.link? reading = l? at ho hl
  cases ho with
  | returned l' hr hb hi hrates =>
    cases hl
    subst hr
    exact Link.sound (h.baseline _ hb) hc (hi ▸ h.interval) hrates
  | _ => cases hl

/-- What holds of a sampler after some calls. A call for a sample that fails or is skipped leaves
the baseline; the first reading that succeeds becomes the baseline and gives no sample; a sample
that is returned is a sound link from the baseline to the reading, which becomes the baseline.
The links since the last reset lead from the first reading that succeeded to the baseline, and
what a counter grew over them, if it never went back, is what it grew in all. -/
structure Chained (start : Sampler Float) (calls : List (Call Float)) : Prop where
  failed : ∀ reading f, ((start.after calls).answer (.sample reading)).1 = .error f →
    ((start.after calls).answer (.sample reading)).2 = start.after calls
  skipped : ∀ reading previous, (start.after calls).baseline = some previous →
    ((start.after calls).answer (.sample reading)).1 = .ok none →
    ((start.after calls).answer (.sample reading)).2 = start.after calls
  first : ∀ now, Call.taken calls = [] → (start.after calls).answer (.sample (.ok now)) =
    (.ok none, { start.after calls with baseline := some now })
  returned : ∀ reading rates, Call.Finite (.sample reading) →
    ((start.after calls).answer (.sample reading)).1 = .ok (some rates) →
    ∃ l, (start.after calls).link? reading = some l ∧ l.rates = rates ∧ l.Sound ∧
      l.interval = (start.after calls).interval ∧
      (start.after calls).baseline = some l.previous ∧ reading = .ok l.now ∧
      ((start.after calls).answer (.sample reading)).2 =
        { start.after calls with baseline := some l.now }
  sound : ∀ l ∈ start.links calls, l.Sound
  unbased : (start.after calls).baseline = none → Call.taken calls = [] ∧ start.links calls = []
  chain : ∀ last, (start.after calls).baseline = some last →
    ∃ first, (Call.taken calls).getLast? = some first ∧
      Chain first (start.links calls) last ∧
      ∀ counter : Reading Float → Int,
        (Call.taken calls).Pairwise (fun later earlier => counter earlier ≤ counter later) →
        (((start.links calls).map (Link.growth counter)).sum : Int) = counter last - counter first

theorem Timed.sound_links {start : Sampler Float} (h : start.Timed) {calls : List (Call Float)}
    (hc : ∀ c ∈ calls, c.Finite) : ∀ l ∈ start.links calls, l.Sound := by
  induction calls with
  | nil => exact nofun
  | cons c earlier ih =>
    obtain ⟨hfinite, hearlier⟩ := List.forall_mem_cons.mp hc
    rcases c with reading | _ | interval
    · intro l hl
      rcases List.mem_append.mp hl with hnew | hold
      · exact (h.after hearlier).sound hfinite l (Option.mem_toList.mp hnew)
      · exact ih hearlier l hold
    · exact nofun
    · exact ih hearlier

theorem chained {start : Sampler Float} {calls : List (Call Float)} (hb : start.baseline = none)
    (hi : start.interval.isFinite = true) (hc : ∀ c ∈ calls, c.Finite) :
    Chained start calls := by
  have htimed : start.Timed := ⟨hi, by rw [hb]; exact nofun⟩
  have ht := traced start hb calls
  refine ⟨fun _ _ => answer_failed, fun _ _ => answer_skipped, ?_, ?_, htimed.sound_links hc,
    ?_, ?_⟩
  · intro now hnone
    refine answer_first (Option.eq_none_iff_forall_ne_some.mpr fun last hlast => ?_) now
    have hmem := ht.mem last hlast
    rw [hnone] at hmem
    cases hmem
  · intro reading rates hfinite hr
    obtain ⟨l, hl, hrates, hkept⟩ := answer_returned hr
    exact ⟨l, hl, hrates, (htimed.after hc).sound hfinite l hl, hkept⟩
  · exact ht.unbased
  · intro last hlast
    obtain ⟨first, hfirst, hchain⟩ := ht.chain last hlast
    exact ⟨first, hfirst, hchain, fun counter hgrown =>
      hchain.sum_growth counter (growing start hb counter calls hgrown)⟩

/-- A run with a reading that fails, one that comes too early, a counter and a clock that go back,
and another interval. -/
theorem chained_mixed :
    let start : Sampler Float := { interval := 2000.0 }
    let calls : List (Call Float) :=
      [.sample (.ok ⟨8000, 700, 3000.0⟩), .sample (.ok ⟨6000, 600, 1500.0⟩), .retime 1000.0,
        .sample (.ok ⟨5000, 400, 2000.0⟩), .sample (.ok ⟨3000, 500, 1000.0⟩),
        .sample (.error .undecodable), .sample (.ok ⟨1000, 500, 0.0⟩)]
    (start.links calls).map Link.rates = [⟨3000, 300⟩, ⟨2000, 0⟩] ∧ Chained start calls := by
  intro start calls
  exact ⟨by decide +kernel, chained rfl (by decide) (by decide)⟩

end TrafficIndicator.Sampler
