import TrafficIndicator.Proofs.Emissions
import TrafficIndicator.Proofs.PanelEvents

/-!
A history lists the commands that were sent and the moments at which the indicator forgot
them, the latest first. What the indicator keeps of a field is what was sent last for it since
it last forgot, so the screen hears of a field only when there is something new to say. A
reaction that breaks off, because the screen cannot show a command, adds to the history what
it sent.
-/
namespace TrafficIndicator.Panel

open Loop Indicator

inductive Mark where
  | sent (c : Command)
  | reset

/-- The command that was sent last for a field since the last reset. -/
def lastSince (f : Field) : List Mark → Option Command
  | [] => none
  | .reset :: _ => none
  | .sent c :: marks => if c.field = f then some c else lastSince f marks

def lastSent (f : Field) (sent : List Command) : Option Command :=
  (sent.filter fun c => c.field = f).getLast?

theorem lastSent_concat (f : Field) (sent : List Command) (c : Command) :
    lastSent f (sent ++ [c]) = if c.field = f then some c else lastSent f sent := by
  rw [lastSent, List.filter_append]
  by_cases hf : c.field = f
  · rw [if_pos hf, List.filter_cons_of_pos (by simp [hf]), List.filter_nil, List.getLast?_concat]
  · rw [if_neg hf, List.filter_cons_of_neg (by simp [hf]), List.filter_nil, List.append_nil]
    rfl

structure Coherent (marks : List Mark) (sent : List Command) (ρ : Rendered) : Prop where
  since : ∀ f, ρ.command? f = lastSince f marks
  last : ∀ f c, ρ.command? f = some c → lastSent f sent = some c
  edged : ∀ newer c older, marks = newer ++ .sent c :: older →
    ∀ d, lastSince c.field older = some d → c.same d = false

theorem coherent_empty (sent : List Command) : Coherent [] sent {} where
  since f := Rendered.command?_empty f
  last f c hc := by
    rw [Rendered.command?_empty] at hc
    cases hc
  edged newer c older h :=
    absurd h.symm (List.append_ne_nil_of_right_ne_nil _ (List.cons_ne_nil _ _))

variable {marks : List Mark} {sent : List Command} {ρ ρ' : Rendered}

theorem Coherent.reset (h : Coherent marks sent ρ) : Coherent (.reset :: marks) sent {} where
  since f := Rendered.command?_empty f
  last f c hc := by
    rw [Rendered.command?_empty] at hc
    cases hc
  edged newer c older heq := by
    cases newer with
    | nil => cases heq
    | cons x newer => exact h.edged newer c older (List.cons.inj heq).2

theorem Coherent.send (h : Coherent marks sent ρ) {c : Command} (hc : ρ.Lacks c) :
    Coherent (.sent c :: marks) (sent ++ [c]) (ρ.put c) where
  since f := by
    rw [Rendered.command?_put ρ hc.tinted, h.since]
    rfl
  last f d hd := by
    rw [Rendered.command?_put ρ hc.tinted] at hd
    rw [lastSent_concat]
    split at hd
    · rw [if_pos ‹_›]
      exact hd
    · rw [if_neg ‹_›]
      exact h.last f d hd
  edged newer d older heq := by
    cases newer with
    | nil =>
      obtain ⟨hx, rfl⟩ := List.cons.inj heq
      injection hx with hx
      subst hx
      intro e he
      rw [← h.since] at he
      exact hc.unsaid e he
    | cons x newer => exact h.edged newer d older (List.cons.inj heq).2

theorem Coherent.emitted {cs : List Command} (he : ρ.Emitted cs ρ') (h : Coherent marks sent ρ) :
    Coherent ((cs.map Mark.sent).reverse ++ marks) (sent ++ cs) ρ' := by
  induction he generalizing marks sent with
  | nil =>
    rw [List.append_nil]
    exact h
  | cons hc he ih =>
    have hall := ih (h.send hc)
    rw [List.append_assoc] at hall
    rw [List.map_cons, List.reverse_cons, List.append_assoc]
    exact hall

variable {τ : Type} [TimeScale τ]

omit [TimeScale τ] in
theorem emitted_of_edged {ρ ρ' : Rendered} {steps : List (Indicator τ × Request τ)}
    (h : Edged ρ steps ρ') : ρ.Emitted (sends steps) ρ' := by
  induction h with
  | nil => exact .nil _
  | aside hq h ih =>
    rw [sends, List.map_cons, List.filterMap_cons_none hq]
    exact ih
  | send hc hj h ih => exact .cons hc ih

def BrokeOff (ρ : Rendered) (steps : List (Indicator τ × Request τ)) (l m : Running τ) : Prop :=
  sends steps ≠ [] ∧ (∃ p ∈ steps, m.host.owner.indicator = p.1) ∧
    ∃ cs, m.host.owner.screen.sent = l.host.owner.screen.sent ++ cs ∧
      ρ.Emitted cs m.host.owner.indicator.rendered

theorem endsIn_send (setup : Setup τ) (c : Command) (l : Running τ) :
    EndsIn (fun m => m.host.owner.screen.sent = l.host.owner.screen.sent ++ [c])
      (fun _ m => m.host.owner.screen.sent = l.host.owner.screen.sent ++ [c] ∧
        m.host.owner.indicator = l.host.owner.indicator) (perform setup (.send c) l) := by
  have hsent := Screen.sent_take l.host.owner.screen c
  rw [perform, bind_get]
  dsimp only
  refine endsIn_bind (M := fun m => m.host.owner.screen.sent = l.host.owner.screen.sent ++ [c] ∧
    m.host.owner.indicator = l.host.owner.indicator) ⟨hsent, rfl⟩ fun _ m hm => ?_
  cases (l.host.owner.screen.take c).2 with
  | none => exact hm.1
  | some f => exact hm

theorem endsIn_steps (setup : Setup τ) {steps : List (Indicator τ × Request τ)}
    (h : Edged ρ steps ρ') (l : Running τ) :
    EndsIn (fun m => m.host.owner.screen.sent = l.host.owner.screen.sent ++ sends steps ∧
        ρ.Emitted (sends steps) ρ')
      (fun _ m => BrokeOff ρ steps l m)
      ((steps.forM fun (state, request) => do
        modifyPanel fun p => { p with indicator := state }
        perform setup request : Act τ PUnit) l) := by
  induction h generalizing l with
  | nil => exact ⟨(List.append_nil _).symm, .nil _⟩
  | @aside ρ ρ' j q steps hq h ih =>
    obtain ⟨m, hm, hscreen⟩ := perform_total setup hq (withIndicator l j)
    have hcs : sends ((j, q) :: steps) = sends steps := List.filterMap_cons_none hq
    refine endsIn_bind (M := fun k => k.host.owner.screen.sent = l.host.owner.screen.sent) ?_
      fun _ k hk => ?_
    · change EndsIn _ _ (perform setup q (withIndicator l j))
      rw [hm]
      exact congrArg Screen.sent hscreen
    · rw [hcs, ← hk]
      refine (ih k).imp (fun _ h => h) fun _ m hbroke => ?_
      obtain ⟨hne, ⟨p, hp, hpm⟩, cs, hall, he⟩ := hbroke
      refine ⟨?_, ⟨p, List.mem_cons_of_mem _ hp, hpm⟩, cs, ?_, he⟩
      · rw [hcs]
        exact hne
      · rw [← hk]
        exact hall
  | @send ρ ρ' j c steps hc hj h ih =>
    refine endsIn_bind (M := fun k => k.host.owner.screen.sent = l.host.owner.screen.sent ++ [c]) ?_
      fun _ k hk => ?_
    · refine (endsIn_send setup c (withIndicator l j)).imp (fun _ h => h) fun _ m hm => ?_
      refine ⟨List.cons_ne_nil _ _, ⟨_, List.mem_cons_self, hm.2⟩, [c], hm.1, ?_⟩
      have hput : m.host.owner.indicator.rendered = ρ.put c := by
        rw [hm.2]
        exact hj
      rw [hput]
      exact .cons hc (.nil _)
    · refine (ih k).imp ?_ ?_
      · rintro m ⟨hall, he⟩
        refine ⟨?_, .cons hc he⟩
        rw [hall, hk, List.append_assoc]
        rfl
      · rintro _ m ⟨-, ⟨p, hp, hpm⟩, cs, hall, he⟩
        refine ⟨List.cons_ne_nil _ _, ⟨p, List.mem_cons_of_mem _ hp, hpm⟩, c :: cs, ?_,
          .cons hc he⟩
        rw [hall, hk, List.append_assoc]
        rfl

/-- A reaction leaves its last state, with everything sent that it sends, or it broke off. -/
theorem endsIn_react (setup : Setup τ) {f : Indicator τ → Reaction τ} {l : Running τ}
    (h : Edged l.host.owner.indicator.rendered (f l.host.owner.indicator).steps ρ') :
    let r := f l.host.owner.indicator
    let Done (m : Running τ) := (m.host.owner.indicator = r.state ∧
      m.host.owner.screen.sent = l.host.owner.screen.sent ++ r.commands ∧
      l.host.owner.indicator.rendered.Emitted r.commands ρ') ∨
        BrokeOff l.host.owner.indicator.rendered r.steps l m
    EndsIn Done (fun _ => Done) (react setup f l) := by
  intro r Done
  rw [react, bind_get]
  dsimp only
  refine endsIn_bind ((endsIn_steps setup h l).imp (fun _ hm => hm) fun _ m hm => Or.inr hm)
    fun _ m hm => ?_
  refine endsIn_bind (M := fun k => k.host.owner.indicator = r.state ∧
    k.host.owner.screen.sent = l.host.owner.screen.sent ++ r.commands ∧
    l.host.owner.indicator.rendered.Emitted r.commands ρ') ⟨rfl, hm⟩ fun _ k hk => ?_
  cases (f l.host.owner.indicator).fault with
  | none => exact Or.inl hk
  | some e => exact Or.inl hk

theorem Stimulus.paced_or_silent (s : Stimulus τ) (i : Indicator τ) :
    Paced i (s.reaction i) ∨ Silent i (s.reaction i) := by
  cases s with
  | join => exact Or.inr silent_join
  | settleIn armed => exact Or.inl (paced_settleIn armed)
  | deliver d =>
    cases d with
    | setting key v => exact Or.inr (silent_settingChanged key v)
    | connection b => exact Or.inl (paced_connectionChanged b)
    | tint color pinned => exact Or.inl (paced_tintChanged color pinned)
    | lock b => exact Or.inl (paced_lockChanged b)
  | tick reading => exact Or.inl (paced_tick reading)
  | refresh => exact Or.inl paced_refresh
  | leave => exact Or.inr silent_leave

omit [TimeScale τ] in
def marked (l m : Running τ) : List Mark :=
  ((m.host.owner.screen.sent.drop l.host.owner.screen.sent.length).map Mark.sent).reverse ++
    if l.host.owner.indicator.resets m.host.owner.indicator then [.reset] else []

omit [TimeScale τ] in
theorem marked_of_sent {l m : Running τ} {cs : List Command}
    (h : m.host.owner.screen.sent = l.host.owner.screen.sent ++ cs) :
    marked l m = (cs.map Mark.sent).reverse ++
      if l.host.owner.indicator.resets m.host.owner.indicator then [.reset] else [] := by
  rw [marked, h, List.drop_left]

/-- The loops of an indicator and what it was told since the indicator was made. An event may
come at any time, from any side, and may break off; everything but the indicator and the
screen may change in between. -/
inductive Told : List Mark → Running τ → Prop where
  | fresh {l : Running τ} (hi : l.host.owner.indicator = l.host.owner.indicator.fresh) : Told [] l
  | reacted {marks : List Mark} {l : Running τ} (setup : Setup τ) (s : Stimulus τ)
      (h : Told marks l) :
      Told (marked l (after (react setup s.reaction) l) ++ marks) (after (react setup s.reaction) l)
  | around {marks : List Mark} {l l' : Running τ} (h : Told marks l)
      (hi : l'.host.owner.indicator = l.host.owner.indicator)
      (hs : l'.host.owner.screen = l.host.owner.screen) : Told marks l'

theorem coherent_react (setup : Setup τ) (s : Stimulus τ) {l m : Running τ}
    (hm : m = after (react setup s.reaction) l)
    (h : Coherent marks l.host.owner.screen.sent l.host.owner.indicator.rendered) :
    Coherent (marked l m ++ marks) m.host.owner.screen.sent m.host.owner.indicator.rendered := by
  rcases s.paced_or_silent l.host.owner.indicator with hp | hs
  · -- whether it came to its last step or broke off, it sent only what was new
    have hstep : ∃ cs, m.host.owner.screen.sent = l.host.owner.screen.sent ++ cs ∧
        l.host.owner.indicator.rendered.Emitted cs m.host.owner.indicator.rendered ∧
        SameMode l.host.owner.indicator m.host.owner.indicator := by
      rw [hm]
      rcases endsIn_iff_after.mp (endsIn_react setup hp.edged) with
        ⟨hi, hsent, he⟩ | ⟨-, ⟨p, hpm, hi⟩, cs, hsent, he⟩
      · rw [hi]
        exact ⟨_, hsent, he, hp.mode⟩
      · refine ⟨cs, hsent, he, ?_⟩
        rw [hi]
        exact hp.modes p hpm
    obtain ⟨cs, hsent, he, hmode⟩ := hstep
    rw [marked_of_sent hsent, hmode.resets, hsent, if_neg Bool.false_ne_true, List.append_nil]
    exact h.emitted he
  · -- nothing was sent, so it cannot have broken off
    have hsilent : Edged l.host.owner.indicator.rendered
        (s.reaction l.host.owner.indicator).steps l.host.owner.indicator.rendered := by
      refine edged_of_silent fun p hp => ?_
      exact List.filterMap_eq_nil_iff.mp hs.commands _ (List.mem_map_of_mem hp)
    have hstep : m.host.owner.indicator = (s.reaction l.host.owner.indicator).state ∧
        m.host.owner.screen.sent = l.host.owner.screen.sent ++ [] := by
      rw [hm]
      rcases endsIn_iff_after.mp (endsIn_react setup hsilent) with ⟨hi, hsent, -⟩ | ⟨hne, -⟩
      · rw [hs.commands] at hsent
        exact ⟨hi, hsent⟩
      · exact absurd hs.commands hne
    obtain ⟨hi, hsent⟩ := hstep
    rw [marked_of_sent hsent, hsent, List.append_nil, hi, hs.rendered]
    split
    · exact h.reset
    · exact h

theorem Told.coherent {l : Running τ} (h : Told marks l) :
    Coherent marks l.host.owner.screen.sent l.host.owner.indicator.rendered := by
  induction h with
  | fresh hi =>
    rw [hi]
    exact coherent_empty _
  | reacted setup s h ih => exact coherent_react setup s rfl ih
  | around h hi hs ih =>
    rw [hi, hs]
    exact ih

def Continues (marks : List Mark) (l : Running τ) : Prop := ∃ more, Told (more ++ marks) l

theorem Continues.around {l l' : Running τ} (h : Continues marks l)
    (hi : l'.host.owner.indicator = l.host.owner.indicator)
    (hs : l'.host.owner.screen = l.host.owner.screen) : Continues marks l' := by
  obtain ⟨more, h⟩ := h
  exact ⟨more, h.around hi hs⟩

theorem lasting_continues (marks : List Mark) : Lasting (Continues (τ := τ) marks) where
  reacts setup s l := by
    rintro ⟨more, h⟩
    have hnext := h.reacted setup s
    rw [← List.append_assoc] at hnext
    exact ⟨_, hnext⟩
  around _ _ hi hs h := h.around hi hs

theorem continued_operation (setup : Setup τ) (op : Operation) :
    Lasts (Continues marks) (op.act setup) :=
  (lasting_continues marks).operation setup op

theorem continued_fire (setup : Setup τ) (e : Entry τ Job) :
    Lasts (Continues marks) (fire setup e) :=
  (lasting_continues marks).fire setup e

/-- What is kept of a field is what the screen was told last, and since the indicator last
forgot what it sent, the screen was never told again what it had been told last. A render pass
that is repeated with the same inputs tells it nothing. Whatever operation comes next, or
timer, and however it ends, the history only grows. -/
theorem rendered_as_told {l : Running τ} (h : Told marks l) :
    (∀ f c, l.host.owner.indicator.rendered.command? f = some c →
        lastSent f l.host.owner.screen.sent = some c) ∧
      (∀ newer c older, marks = newer ++ .sent c :: older →
        ∀ d, lastSince c.field older = some d → c.same d = false) ∧
      (∀ j, SameInputs l.host.owner.indicator j →
        j.rendered = l.host.owner.indicator.render.state.rendered → j.render.commands = []) ∧
      (∀ setup op, Continues marks (after (Operation.act setup op) l)) ∧
      ∀ setup e, Continues marks (after (fire setup e) l) := by
  have hnow : Continues marks l := ⟨[], h⟩
  refine ⟨h.coherent.last, h.coherent.edged, fun j => render_repeated, ?_, ?_⟩
  · intro setup op
    exact endsIn_iff_after.mp (continued_operation setup op l hnow)
  · intro setup e
    exact endsIn_iff_after.mp (continued_fire setup e l hnow)

theorem shown_as_told_after_reattach :
    ∃ (l : Running Rat) (marks : List Mark), Told marks l ∧
      l = afterAll secluded reattaching (made {} {}) ∧
      lastSent .visible l.host.owner.screen.sent = some (.visible true) := by
  have hmade : Continues [] (made {} {}) := ⟨[], .fresh rfl⟩
  obtain ⟨marks, h⟩ := (lasting_continues []).reacting.afterAll secluded reattaching hmade
  rw [List.append_nil] at h
  have hv : (afterAll secluded reattaching (made {} {})).host.owner.indicator.rendered.visible =
      some true := by decide +kernel
  generalize hl : afterAll secluded reattaching (made {} {}) = l at h hv
  obtain ⟨hlast, -, -, -, -⟩ := rendered_as_told h
  exact ⟨l, marks, h, rfl,
    hlast .visible (.visible true) (congrArg (Option.map Command.visible) hv)⟩

end TrafficIndicator.Panel
