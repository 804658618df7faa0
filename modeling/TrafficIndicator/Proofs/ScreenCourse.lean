import TrafficIndicator.Proofs.ScreenHistory

/-!
A reaction either has all of its commands drawn, or it breaks off at the first that the screen
refuses, which the screen has taken all the same. A screen without a terminal that refuses
nothing of itself never breaks a reaction off, nor does one whose terminal can color all.
-/
namespace TrafficIndicator

namespace Screen

inductive Drawn : Screen → List Command → Screen → Prop where
  | nil (s : Screen) : Drawn s [] s
  | cons {s s' : Screen} {c : Command} {cs : List Command} (hc : (s.take c).2 = none)
      (h : Drawn (s.take c).1 cs s') : Drawn s (c :: cs) s'

variable {s s' : Screen} {cs : List Command}

theorem Drawn.sent (h : Drawn s cs s') : s'.sent = s.sent ++ cs := by
  induction h with
  | nil s => exact (List.append_nil _).symm
  | @cons s s' c cs hc h ih => rw [ih, sent_take, List.append_assoc, List.singleton_append]

theorem Drawn.keeps {Q : Screen → Prop} (h : Drawn s cs s')
    (hq : ∀ s c, c ∈ cs → Q s → Q (s.take c).1) (hs : Q s) : Q s' := by
  induction h with
  | nil => exact hs
  | cons hc h ih =>
    refine ih (fun s c hmem => hq s c (List.mem_cons_of_mem _ hmem)) ?_
    exact hq _ _ List.mem_cons_self hs

theorem terminal_take (s : Screen) (c : Command) :
    (s.take c).1.terminal = s.terminal.map fun t => t.take c := by
  rw [take]
  dsimp only
  split
  · rfl
  · split <;> rfl

theorem refusal_take (s : Screen) (c : Command) : (s.take c).1.refusal = s.refusal := by
  rw [take]
  dsimp only
  split
  · rfl
  · split <;> rfl

theorem drawn_take {s : Screen} {c : Command} {t : Terminal} (ht : s.terminal = some t)
    (hd : (s.take c).2 = none) :
    ∃ frame, (t.take c).frame = .ok frame ∧ (s.take c).1.frames = s.frames ++ [frame] := by
  rw [take] at hd ⊢
  dsimp only at hd ⊢
  rw [ht] at hd ⊢
  simp only [frame?, Option.map_some] at hd ⊢
  cases hf : (t.take c).frame with
  | error f =>
    rw [hf] at hd
    cases hd
  | ok frame =>
    refine ⟨frame, rfl, ?_⟩
    rw [hf] at hd
    dsimp only [Except.map] at hd ⊢
    split at hd
    · cases hd
    · rfl

/-- What stands in the frames was drawn before, or is the line that is drawn now. -/
theorem mem_frames_take {s : Screen} {c : Command} {f : LooseText}
    (h : f ∈ (s.take c).1.frames) :
    f ∈ s.frames ∨ ∃ t, (s.take c).1.terminal = some t ∧ t.frame = .ok f := by
  cases hd : (s.take c).2 with
  | some e =>
    left
    rw [take] at h hd
    dsimp only at h hd
    split at h
    · exact h
    · split at h
      · exact h
      · simp_all
  | none =>
    cases ht : s.terminal with
    | none =>
      left
      rw [take] at h
      dsimp only at h
      rw [ht] at h
      simp only [frame?, Option.map_none] at h
      split at h
      · exact h
      · simpa using h
    | some t =>
      obtain ⟨frame, hframe, hframes⟩ := drawn_take ht hd
      rw [hframes] at h
      rcases List.mem_append.mp h with h | h
      · exact Or.inl h
      · refine Or.inr ⟨t.take c, by rw [terminal_take, ht]; rfl, ?_⟩
        rw [hframe, List.mem_singleton.mp h]

def complaint? (s : Screen) : Option Fault :=
  match s.frame? with
  | .error f => some f
  | .ok _ => s.refusal s.sent

/-- Of some commands the last was refused, with a fault, and all before it were drawn. -/
def Refuses (s : Screen) (f : Fault) (s' : Screen) : Prop :=
  ∃ cs s₁ c, s.Drawn cs s₁ ∧ s₁.take c = (s', some f)

/-- A screen that refuses nothing of itself, whose terminal can color every line, if it is one. -/
structure Willing (s : Screen) : Prop where
  colors : ∀ t, s.terminal = some t → ∀ tint text, (t.coloring tint text).toOption.isSome = true
  accepts : ∀ sent, s.refusal sent = none

end Screen

def Coloring.named : Coloring
  | .text name, text => if name.isEncodable then .ok text else .error .unencodable
  | _, text => .ok text

theorem Terminal.coloring_take (t : Terminal) (c : Command) :
    (t.take c).coloring = t.coloring := by
  cases c <;> rfl

namespace Screen

variable {s s' : Screen} {c : Command} {cs : List Command}

theorem Willing.take (h : s.Willing) (c : Command) : (s.take c).1.Willing where
  colors t ht := by
    rw [terminal_take] at ht
    obtain ⟨t₀, ht₀, rfl⟩ := Option.map_eq_some_iff.mp ht
    rw [t₀.coloring_take]
    exact h.colors t₀ ht₀
  accepts sent := by rw [refusal_take, h.accepts]

end Screen

namespace Panel

open Loop Indicator

variable {τ : Type} [TimeScale τ] {setup : Setup τ} {r : Reaction τ} {l m : Running τ}

/-- What a reaction leaves, and why it halted, if it did. It comes to its last state with
everything drawn, or it breaks off where the screen refuses a command, in the state in which that
was sent. -/
inductive Upshot (r : Reaction τ) (l : Running τ) : Option Halt → Running τ → Prop where
  | whole {h : Option Halt} {m : Running τ} (hh : h = r.fault.map .fault)
      (hi : m.host.owner.indicator = r.state)
      (hs : l.host.owner.screen.Drawn r.commands m.host.owner.screen) : Upshot r l h m
  | broken {m : Running τ} {j : Indicator τ} {c : Command} {f : Fault}
      {before rest : List (Indicator τ × Request τ)} {s : Screen}
      (hr : r.steps = before ++ (j, .send c) :: rest) (hi : m.host.owner.indicator = j)
      (hd : l.host.owner.screen.Drawn (sends before) s)
      (hc : s.take c = (m.host.owner.screen, some f)) : Upshot r l (some (.fault f)) m

/-- A command is drawn, or the screen has taken it and the reaction breaks off. -/
theorem endsIn_take (setup : Setup τ) (c : Command) (l : Running τ) :
    EndsIn (fun m => l.host.owner.screen.take c = (m.host.owner.screen, none))
      (fun e m => (∃ f, l.host.owner.screen.take c = (m.host.owner.screen, some f) ∧
        e = .fault f) ∧ m.host.owner.indicator = l.host.owner.indicator)
      (perform setup (.send c) l) := by
  rw [perform, bind_get]
  dsimp only
  refine endsIn_bind (M := fun m => m.host.owner.screen = (l.host.owner.screen.take c).1 ∧
    m.host.owner.indicator = l.host.owner.indicator) ⟨rfl, rfl⟩ fun _ m hm => ?_
  cases hf : (l.host.owner.screen.take c).2 with
  | none => exact Prod.ext hm.1.symm hf
  | some f => exact ⟨⟨f, Prod.ext hm.1.symm hf, rfl⟩, hm.2⟩

theorem endsIn_drawn (setup : Setup τ) (steps : List (Indicator τ × Request τ)) (l : Running τ) :
    EndsIn (fun m => l.host.owner.screen.Drawn (sends steps) m.host.owner.screen)
      (fun e m => ∃ before j c rest s f, steps = before ++ (j, .send c) :: rest ∧
        m.host.owner.indicator = j ∧ l.host.owner.screen.Drawn (sends before) s ∧
        s.take c = (m.host.owner.screen, some f) ∧ e = .fault f)
      ((steps.forM fun (state, request) => do
        modifyPanel fun p => { p with indicator := state }
        perform setup request : Act τ PUnit) l) := by
  induction steps generalizing l with
  | nil => exact .nil _
  | cons p steps ih =>
    obtain ⟨j, q⟩ := p
    cases hq : q.command? with
    | none =>
      have hsends : ∀ rest, sends ((j, q) :: rest) = sends rest := fun _ =>
        List.filterMap_cons_none hq
      obtain ⟨m, hm, hscreen⟩ := perform_total setup hq (withIndicator l j)
      have hscreen' : m.host.owner.screen = l.host.owner.screen := hscreen
      refine endsIn_bind (M := fun k => k = m) ?_ fun _ k hk => ?_
      · change EndsIn _ _ (perform setup q (withIndicator l j))
        rw [hm]
        rfl
      · subst hk
        rw [hsends, ← hscreen']
        refine (ih k).imp (fun _ h => h) fun _ n hn => ?_
        obtain ⟨before, i, c, rest, s, f, rfl, hi, hd, hc, he⟩ := hn
        refine ⟨(j, q) :: before, i, c, rest, s, f, rfl, hi, ?_, hc, he⟩
        rw [hsends]
        exact hd
    | some c =>
      obtain rfl : q = .send c := by
        cases q with
        | send d => rw [Option.some.inj hq]
        | arm | disarm | note => cases hq
      refine endsIn_bind (M := fun k => l.host.owner.screen.take c = (k.host.owner.screen, none))
        ?_ fun _ k hk => ?_
      · refine (endsIn_take setup c (withIndicator l j)).imp (fun _ h => h) fun _ m hm => ?_
        obtain ⟨⟨f, hc, he⟩, hi⟩ := hm
        exact ⟨[], j, c, steps, _, f, rfl, hi, .nil _, hc, he⟩
      · have hfirst : (l.host.owner.screen.take c).2 = none := by rw [hk]
        have hscreen : (l.host.owner.screen.take c).1 = k.host.owner.screen := by rw [hk]
        have hdrawn := ih k
        rw [← hscreen] at hdrawn
        refine hdrawn.imp (fun m hm => .cons hfirst hm) fun _ n hn => ?_
        obtain ⟨before, i, d, rest, s, f, rfl, hi, hd, hc, he⟩ := hn
        exact ⟨(j, .send c) :: before, i, d, rest, s, f, rfl, hi, .cons hfirst hd, hc, he⟩

theorem endsIn_upshot (setup : Setup τ) (f : Indicator τ → Reaction τ) (l : Running τ) :
    let r := f l.host.owner.indicator
    EndsIn (Upshot r l none) (fun e => Upshot r l (some e)) (react setup f l) := by
  intro r
  rw [react, bind_get]
  refine endsIn_bind (M := fun m => l.host.owner.screen.Drawn r.commands m.host.owner.screen) ?_
    fun _ m hm => ?_
  · refine (endsIn_drawn setup r.steps l).imp (fun _ h => h) fun _ m hm => ?_
    obtain ⟨before, j, c, rest, s, f, hr, hi, hd, hc, rfl⟩ := hm
    exact .broken hr hi hd hc
  · refine endsIn_bind (M := fun k => k.host.owner.indicator = r.state ∧
      l.host.owner.screen.Drawn r.commands k.host.owner.screen) ⟨rfl, hm⟩ fun _ k hk => ?_
    cases hf : (f l.host.owner.indicator).fault with
    | none => exact .whole (by rw [hf]; rfl) hk.1 hk.2
    | some e => exact .whole (by rw [hf]; rfl) hk.1 hk.2

theorem upshot_react (setup : Setup τ) (f : Indicator τ → Reaction τ) (l : Running τ) :
    ∃ h, Upshot (f l.host.owner.indicator) l h (after (react setup f) l) := by
  let P : Running τ → Prop := fun m => ∃ h, Upshot (f l.host.owner.indicator) l h m
  have hends : EndsIn P (fun _ => P) (react setup f l) :=
    (endsIn_upshot setup f l).imp (fun _ hm => ⟨none, hm⟩) fun e _ hm => ⟨some e, hm⟩
  exact endsIn_iff_after.mp hends

theorem react_drawn {f : Indicator τ → Reaction τ} {u : Unit} (h : react setup f l = .ok u m) :
    l.host.owner.screen.Drawn (f l.host.owner.indicator).commands m.host.owner.screen := by
  have hends := endsIn_upshot setup f l
  rw [h] at hends
  cases hends with
  | whole hh hi hs => exact hs

variable {h : Option Halt}

omit [TimeScale τ] in
theorem Upshot.sent (hu : Upshot r l h m) :
    ∃ cs, cs <+: r.commands ∧ m.host.owner.screen.sent = l.host.owner.screen.sent ++ cs := by
  cases hu with
  | whole hh hi hs => exact ⟨_, List.prefix_rfl, hs.sent⟩
  | @broken m j c f before rest s hr hi hd hc =>
    refine ⟨sends before ++ [c], sends_initial hr, ?_⟩
    have hscreen : m.host.owner.screen = (s.take c).1 := by rw [hc]
    rw [hscreen, Screen.sent_take, hd.sent, List.append_assoc]

omit [TimeScale τ] in
/-- What every command of a reaction keeps of the screen, drawn or not, the reaction keeps. -/
theorem Upshot.keeps {Q : Screen → Prop} (hu : Upshot r l h m)
    (hq : ∀ s c, c ∈ r.commands → Q s → Q (s.take c).1) (hs : Q l.host.owner.screen) :
    Q m.host.owner.screen := by
  cases hu with
  | whole _ _ hd => exact hd.keeps hq hs
  | @broken m j c f before rest s hr hi hd hc =>
    have hmem := (sends_initial hr).subset
    have hscreen : m.host.owner.screen = (s.take c).1 := by rw [hc]
    rw [hscreen]
    refine hq _ _ (hmem (by simp)) (hd.keeps (fun s d hd => hq s d (hmem ?_)) hs)
    exact List.mem_append_left _ hd

theorem lasting_coloring (coloring : Option Coloring) :
    Lasting fun l : Running τ => l.host.owner.screen.terminal.map (·.coloring) = coloring where
  reacts setup s l hc := by
    obtain ⟨halt, hup⟩ := upshot_react setup s.reaction l
    refine hup.keeps (Q := fun screen => screen.terminal.map (·.coloring) = coloring)
      (fun screen c _ hc => ?_) hc
    rw [← hc, Screen.terminal_take, Option.map_map]
    exact congrArg (screen.terminal.map ·) (funext fun t => t.coloring_take c)
  around l l' hi hs hc := by rwa [hs]

end Panel

end TrafficIndicator
