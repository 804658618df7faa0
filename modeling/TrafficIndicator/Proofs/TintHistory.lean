import TrafficIndicator.Proofs.Commands
import TrafficIndicator.Proofs.Detached
import TrafficIndicator.Proofs.ScreenCourse
import TrafficIndicator.Proofs.ValueEquality

/-!
A pinned tint is kept against all that are not pinned, until the indicator is detached. What is
accepted while the indicator is not shown waits until it is, and whatever makes the indicator
forget what it sent leaves what it accepted alone. Where the screen refuses to show the indicator,
what waits is not sent with it. A history lists what the screen was told and refused, together
with the tints that were delivered and the ends of attachments, the latest first.
-/
namespace TrafficIndicator.Panel

open Loop Indicator

inductive Fact where
  | told (m : Mark)
  /-- The screen refused the command that it was told last. -/
  | refused
  | delivered (color : Value) (pinned : Bool)
  /-- The indicator was detached. -/
  | left

def Fact.mark? : Fact → Option Mark
  | .told m => some m
  | _ => none

def Fact.Calm (x : Fact) : Prop := ∀ m, x = .told m → ∃ c, m = .sent c ∧ ¬Settles c

/-- What the screen was told, and when the indicator forgot it. -/
def marks (facts : List Fact) : List Mark := facts.filterMap Fact.mark?

def tintsSince : List Fact → List (Value × Bool)
  | [] => []
  | .left :: _ => []
  | .delivered color pinned :: facts => (color, pinned) :: tintsSince facts
  | .told _ :: facts | .refused :: facts => tintsSince facts

/-- The color of the last pinned tint, or of the last one if none was pinned. -/
def accepted (facts : List Fact) : Value :=
  match (tintsSince facts).find? (·.2) with
  | some (color, _) => color
  | none => ((tintsSince facts).head?.map (·.1)).getD .null

def pinnedSince (facts : List Fact) : Bool := (tintsSince facts).any (·.2)

variable {facts older : List Fact}

theorem tintsSince_told (ms : List Mark) (facts : List Fact) :
    tintsSince (ms.map .told ++ facts) = tintsSince facts := by
  induction ms with
  | nil => rfl
  | cons m ms ih => exact ih

theorem accepted_told (ms : List Mark) (facts : List Fact) :
    accepted (ms.map .told ++ facts) = accepted facts := by
  rw [accepted, accepted, tintsSince_told]

theorem pinnedSince_told (ms : List Mark) (facts : List Fact) :
    pinnedSince (ms.map .told ++ facts) = pinnedSince facts := by
  rw [pinnedSince, pinnedSince, tintsSince_told]

theorem marks_told (ms : List Mark) (facts : List Fact) :
    marks (ms.map .told ++ facts) = ms ++ marks facts := by
  rw [marks, List.filterMap_append, List.filterMap_map]
  exact congrArg (· ++ marks facts) List.filterMap_some

structure Tinted {τ : Type} (facts : List Fact) (i : Indicator τ) : Prop where
  tint : i.tint = accepted facts
  pinned : i.pinned = pinnedSince facts

variable {τ : Type} {i j : Indicator τ}

theorem Tinted.of_same (h : Tinted facts i) (hs : SameTint i j) : Tinted facts j :=
  ⟨hs.tint.trans h.tint, hs.pinned.trans h.pinned⟩

theorem Tinted.told (h : Tinted facts i) (ms : List Mark) : Tinted (ms.map .told ++ facts) i :=
  ⟨h.tint.trans (accepted_told ms facts).symm, h.pinned.trans (pinnedSince_told ms facts).symm⟩

theorem Tinted.accept (h : Tinted facts i) (color : Value) (pinned : Bool) :
    Tinted (.delivered color pinned :: facts) (i.accept color pinned) := by
  obtain ⟨ht, hp⟩ := h
  have hsince : tintsSince (.delivered color pinned :: facts) =
      (color, pinned) :: tintsSince facts := rfl
  rw [accepted] at ht
  rw [pinnedSince] at hp
  cases pinned with
  | true =>
    -- a pinned tint is accepted in any case
    refine ⟨?_, ?_⟩
    · rw [accepted, hsince]
      simp [Indicator.accept]
    · rw [pinnedSince, hsince]
      simp [Indicator.accept]
  | false =>
    cases hi : i.pinned with
    | true =>
      have hkept : i.accept color false = i := by simp [Indicator.accept, hi]
      rw [hkept]
      refine ⟨?_, ?_⟩
      · rw [accepted, hsince, List.find?_cons_of_neg (by simp), ht]
        have hsome : ((tintsSince facts).find? (·.2)).isSome = true := by
          rw [List.find?_isSome]
          simpa [hi] using hp
        cases hf : (tintsSince facts).find? (·.2) with
        | none =>
          rw [hf] at hsome
          cases hsome
        | some d => rfl
      · rw [pinnedSince, hsince, hp]
        rfl
    | false =>
      have hnone : (tintsSince facts).find? (·.2) = none := by
        rw [List.find?_eq_none]
        simpa [hi] using hp
      refine ⟨?_, ?_⟩
      · rw [accepted, hsince, List.find?_cons_of_neg (by simp), hnone]
        simp [Indicator.accept, hi]
      · rw [pinnedSince, hsince, List.any_cons, ← hp, hi]
        simp [Indicator.accept, hi]

def Obeyed (facts : List Fact) : Prop :=
  ∀ newer color older, facts = newer ++ .told (.sent (.tint color)) :: older →
    color = accepted older ∧ lastSince .visible (marks older) = some (.visible true)

theorem Obeyed.cons {x : Fact} (h : Obeyed facts)
    (hx : ∀ color, x = .told (.sent (.tint color)) →
      color = accepted facts ∧ lastSince .visible (marks facts) = some (.visible true)) :
    Obeyed (x :: facts) := by
  intro newer color older heq
  cases newer with
  | nil =>
    obtain ⟨rfl, rfl⟩ := List.cons.inj heq
    exact hx color rfl
  | cons y newer => exact h newer color older (List.cons.inj heq).2

/-- However far a reaction gets, it sends its tints as they are to be sent. -/
theorem Obeyed.sends {steps : List (Indicator τ × Request τ)} {ρ ρ' : Rendered}
    {sent cs : List Command} (h : Obeyed facts) (he : Edged ρ steps ρ')
    (hm : ∀ p ∈ steps, p.1.Means p.2) (ht : ∀ p ∈ steps, Tinted facts p.1)
    (hc : Coherent (marks facts) sent ρ) (hcs : cs <+: sends steps) :
    Obeyed ((cs.map Mark.sent).reverse.map .told ++ facts) := by
  induction he generalizing facts sent cs with
  | nil =>
    rw [List.prefix_nil.mp hcs]
    exact h
  | @aside ρ ρ' j q steps hq he ih =>
    have hsends : sends ((j, q) :: steps) = sends steps := List.filterMap_cons_none hq
    rw [hsends] at hcs
    exact ih h (fun p hp => hm p (List.mem_cons_of_mem _ hp))
      (fun p hp => ht p (List.mem_cons_of_mem _ hp)) hc hcs
  | @send ρ ρ' j c steps hlack hj he ih =>
    cases cs with
    | nil => exact h
    | cons d cs =>
      obtain ⟨rfl, hrest⟩ : d = c ∧ cs <+: sends steps := List.cons_prefix_cons.mp hcs
      have hnext : Obeyed (.told (.sent d) :: facts) := by
        refine h.cons fun color heq => ?_
        obtain rfl : d = .tint color := by
          injection heq with heq
          injection heq
        obtain ⟨htint, hseen⟩ := hm _ List.mem_cons_self
        refine ⟨htint.symm.trans (ht _ List.mem_cons_self).tint, ?_⟩
        rw [hj] at hseen
        rw [← hc.since, Rendered.command?]
        exact congrArg (Option.map Command.visible) hseen
      have hall := ih hnext (fun p hp => hm p (List.mem_cons_of_mem _ hp))
        (fun p hp => (ht p (List.mem_cons_of_mem _ hp)).told [.sent d]) (hc.send hlack) hrest
      rw [List.map_cons, List.reverse_cons, List.map_append, List.append_assoc]
      exact hall

def Stimulus.adds (i : Indicator τ) : Stimulus τ → List Fact
  | .deliver (.tint color pinned) => [.delivered color pinned]
  | .leave => if i.attached then [.left] else []
  | _ => []

def Stimulus.accepts (i : Indicator τ) : Stimulus τ → Indicator τ
  | .deliver (.tint color pinned) => i.accept color pinned
  | .leave => i.leave.state
  | _ => i

theorem Stimulus.marks_adds (s : Stimulus τ) (i : Indicator τ) (facts : List Fact) :
    marks (s.adds i ++ facts) = marks facts := by
  cases s with
  | deliver d => cases d <;> rfl
  | leave =>
    rw [Stimulus.adds]
    split <;> rfl
  | join | settleIn | tick | refresh => rfl

theorem Obeyed.adds (h : Obeyed facts) (s : Stimulus τ) (i : Indicator τ) :
    Obeyed (s.adds i ++ facts) := by
  cases s with
  | deliver d =>
    cases d with
    | tint color pinned => exact h.cons nofun
    | setting | connection | lock => exact h
  | leave =>
    rw [Stimulus.adds]
    split
    · exact h.cons nofun
    · exact h
  | join | settleIn | tick | refresh => exact h

theorem Tinted.adds (h : Tinted facts i) (s : Stimulus τ) :
    Tinted (s.adds i ++ facts) (s.accepts i) := by
  cases s with
  | deliver d =>
    cases d with
    | tint color pinned => exact h.accept color pinned
    | setting | connection | lock => exact h
  | leave =>
    rw [Stimulus.adds, Stimulus.accepts, leave_spec.1]
    split
    · exact ⟨rfl, rfl⟩
    · exact h
  | join | settleIn | tick | refresh => exact h

variable [TimeScale τ]

/-- A tint that is to be seen stays sent, and it is in place after a tint or a change of what is
shown. -/
theorem Stimulus.flushes (s : Stimulus τ) {i : Indicator τ}
    (hd : i.attached = false → i.rendered.visible ≠ some true)
    (h : Flushed i ∨ ∃ c ∈ (s.reaction i).commands, Settles c) :
    Flushed (s.reaction i).state := by
  cases s with
  | deliver d =>
    cases d with
    | tint color pinned => exact flushed_tintChanged hd h
    | setting key v => exact (candid_settingChanged key v).flushes h
    | connection b => exact (candid_connectionChanged b).flushes h
    | lock b => exact (candid_lockChanged b).flushes h
  | leave =>
    rw [Stimulus.reaction, silent_leave.commands] at h
    rw [Stimulus.reaction, leave_spec.1]
    split
    · exact flushed_of_unseen (by simp [fresh])
    · exact h.resolve_right (by simp)
  | join => exact candid_join.flushes h
  | settleIn armed => exact (candid_settleIn armed).flushes h
  | tick reading => exact (candid_tick reading).flushes h
  | refresh => exact candid_refresh.flushes h

theorem Stimulus.midway (s : Stimulus τ) {i j : Indicator τ} {c : Command}
    {before rest : List (Indicator τ × Request τ)}
    (hr : (s.reaction i).steps = before ++ (j, .send c) :: rest)
    (h : Flushed i ∨ ∃ d ∈ sends before ++ [c], Settles d) : Flushed j ∨ c = .visible true := by
  cases s with
  | deliver d =>
    cases d with
    | tint color pinned => exact Or.inl (midway_tintChanged hr)
    | setting key v => exact (candid_settingChanged key v).midway _ _ _ _ hr h
    | connection b => exact (candid_connectionChanged b).midway _ _ _ _ hr h
    | lock b => exact (candid_lockChanged b).midway _ _ _ _ hr h
  | leave =>
    have hmem := (sends_initial hr).subset (by simp : c ∈ sends before ++ [c])
    rw [Stimulus.reaction, silent_leave.commands] at hmem
    cases hmem
  | join => exact candid_join.midway _ _ _ _ hr h
  | settleIn armed => exact (candid_settleIn armed).midway _ _ _ _ hr h
  | tick reading => exact (candid_tick reading).midway _ _ _ _ hr h
  | refresh => exact candid_refresh.midway _ _ _ _ hr h

def Bare (i : Indicator τ) : Prop := i.attached = false → i.rendered = {}

theorem Stimulus.bare (s : Stimulus τ) {i : Indicator τ} (hfit : s.Fits i) (h : Bare i) :
    Bare (s.reaction i).state := by
  intro hd
  cases ha : i.attached with
  | false =>
    rw [Stimulus.rendered_of_detached hfit ha]
    exact h ha
  | true =>
    rcases s.paced_or_silent i with hp | hs
    · rw [hp.mode.attached, ha] at hd
      cases hd
    · rw [hs.rendered, if_pos]
      rw [resets, ha, hd]
      rfl

def Interrupted (facts : List Fact) : Prop :=
  ∃ newer older, facts = newer ++ .refused :: .told (.sent (.visible true)) :: older ∧
    ∀ x ∈ newer, x.Calm

theorem Interrupted.append {more : List Fact} (h : Interrupted facts)
    (hm : ∀ x ∈ more, x.Calm) : Interrupted (more ++ facts) := by
  obtain ⟨newer, older, rfl, hnewer⟩ := h
  exact ⟨more ++ newer, older, (List.append_assoc ..).symm, List.forall_mem_append.mpr ⟨hm, hnewer⟩⟩

omit [TimeScale τ] in
/-- Whether the screen refused the last command that it was told on the way from one loop to
another. -/
def refusals (l m : Running τ) : List Fact :=
  if l.host.owner.screen.sent.length < m.host.owner.screen.sent.length then
    m.host.owner.screen.complaint?.toList.map fun _ => .refused
  else []

omit [TimeScale τ] in
def added (s : Stimulus τ) (l m : Running τ) : List Fact :=
  refusals l m ++ ((marked l m).map .told ++ s.adds l.host.owner.indicator)

omit [TimeScale τ] in
theorem refusals_cases (l m : Running τ) : refusals l m = [] ∨ refusals l m = [.refused] := by
  rw [refusals]
  split
  · cases m.host.owner.screen.complaint? with
    | none => exact Or.inl rfl
    | some f => exact Or.inr rfl
  · exact Or.inl rfl

omit [TimeScale τ] in
theorem Tinted.refusals (h : Tinted facts i) (l m : Running τ) :
    Tinted (refusals l m ++ facts) i := by
  rcases refusals_cases l m with hr | hr <;> rw [hr]
  · exact h
  · exact ⟨h.tint, h.pinned⟩

omit [TimeScale τ] in
theorem marks_refusals (l m : Running τ) (facts : List Fact) :
    marks (refusals l m ++ facts) = marks facts := by
  rcases refusals_cases l m with hr | hr <;> rw [hr] <;> rfl

omit [TimeScale τ] in
theorem Obeyed.refusals (h : Obeyed facts) (l m : Running τ) :
    Obeyed (refusals l m ++ facts) := by
  rcases refusals_cases l m with hr | hr <;> rw [hr]
  · exact h
  · exact h.cons nofun

/-- The loops of an indicator, and what happened since it was made. Any event that can come may
come at any time and may break off, and everything but the indicator and the screen may change
in between. -/
inductive Followed : List Fact → Running τ → Prop where
  | fresh {l : Running τ} (hi : l.host.owner.indicator = l.host.owner.indicator.fresh) :
      Followed [] l
  | reacted {facts : List Fact} {l : Running τ} (setup : Setup τ) (s : Stimulus τ)
      (hfit : s.Fits l.host.owner.indicator) (h : Followed facts l) :
      Followed (added s l (after (react setup s.reaction) l) ++ facts)
        (after (react setup s.reaction) l)
  | around {facts : List Fact} {l l' : Running τ} (h : Followed facts l)
      (hi : l'.host.owner.indicator = l.host.owner.indicator)
      (hs : l'.host.owner.screen = l.host.owner.screen) : Followed facts l'

variable {l : Running τ}

theorem Followed.told (h : Followed facts l) : Told (marks facts) l := by
  induction h with
  | fresh hi => exact .fresh hi
  | reacted setup s hfit h ih =>
    rw [added, List.append_assoc, List.append_assoc, marks_refusals, marks_told, s.marks_adds]
    exact ih.reacted setup s
  | around h hi hs ih => exact ih.around hi hs

/-- On a terminal that fails to write in the color of a name without a UTF-8 form, such a tint is
sent. Another is accepted while the indicator is hidden, and then it is to be shown again. -/
def garbled : Running Rat :=
  afterAll secluded [.attach, .deliver (.tint (.text (.points [0xD800])) false),
    .deliver (.lock true), .deliver (.tint (.text "red") false), .deliver (.lock false)]
    { made { enabled := true } {} with
      host.owner.screen.terminal := some { coloring := Coloring.named } }

end TrafficIndicator.Panel
