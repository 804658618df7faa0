import TrafficIndicator.Proofs.Handlers

/-!
Of each field the indicator keeps the command that was sent last, and sends another only if it
says something new. The parts of a render pass, and the events made of them, neither attach
nor detach the indicator and leave its settings alone; the other events send nothing.
-/
namespace TrafficIndicator

inductive Field where
  | text
  | icon
  | tint
  | visible
  deriving DecidableEq, Repr

namespace Command

def field : Command → Field
  | .text _ => .text
  | .icon _ => .icon
  | .tint _ => .tint
  | .visible _ => .visible

/-- Two commands say the same of one field. Tints may be equal without being alike. -/
def same : Command → Command → Bool
  | .text a, .text b => a = b
  | .icon a, .icon b => a = b
  | .tint a, .tint b => a.equal b
  | .visible a, .visible b => a = b
  | _, _ => false

end Command

namespace Rendered

/-- The command by which a field was rendered, if it was. -/
def command? (ρ : Rendered) : Field → Option Command
  | .text => ρ.text.map .text
  | .icon => ρ.icon.map .icon
  | .tint =>
    match ρ.tint with
    | .null => none
    | color => some (.tint color)
  | .visible => ρ.visible.map .visible

def put (ρ : Rendered) : Command → Rendered
  | .text l => { ρ with text := some l }
  | .icon d => { ρ with icon := some d }
  | .tint color => { ρ with tint := color }
  | .visible b => { ρ with visible := some b }

structure Lacks (ρ : Rendered) (c : Command) : Prop where
  tinted : c ≠ .tint .null
  unsaid : ∀ d, ρ.command? c.field = some d → c.same d = false

theorem command?_put (ρ : Rendered) {c : Command} (hc : c ≠ .tint .null) (f : Field) :
    (ρ.put c).command? f = if c.field = f then some c else ρ.command? f := by
  cases c with
  | text | icon | visible => cases f <;> rfl
  | tint color =>
    cases f with
    | tint =>
      cases color with
      | null => exact absurd rfl hc
      | _ => rfl
    | text | icon | visible => rfl

theorem command?_empty (f : Field) : ({} : Rendered).command? f = none := by
  cases f <;> rfl

theorem unsaid_of_ne {α : Type} [DecidableEq α] {make : α → Command} {o : Option α} {a : α}
    (hs : ∀ b, (make a).same (make b) = decide (a = b)) (h : o ≠ some a) :
    ∀ d, o.map make = some d → (make a).same d = false := by
  intro d hd
  obtain ⟨b, hb, rfl⟩ := Option.map_eq_some_iff.mp hd
  rw [hs]
  refine decide_eq_false fun heq => h ?_
  rw [hb, heq]

inductive Emitted : Rendered → List Command → Rendered → Prop where
  | nil (ρ : Rendered) : Emitted ρ [] ρ
  | cons {ρ ρ' : Rendered} {c : Command} {cs : List Command} (hc : ρ.Lacks c)
      (h : Emitted (ρ.put c) cs ρ') : Emitted ρ (c :: cs) ρ'

end Rendered

namespace Indicator

open Reaction

def sends {τ : Type} (steps : List (Indicator τ × Request τ)) : List Command :=
  (steps.map Prod.snd).filterMap Request.command?

theorem sends_append {τ : Type} (xs ys : List (Indicator τ × Request τ)) :
    sends (xs ++ ys) = sends xs ++ sends ys := by
  rw [sends, List.map_append, List.filterMap_append]
  rfl

/-- What was sent up to a step is where the commands of the reaction begin. -/
theorem sends_initial {τ : Type} {r : Reaction τ} {before rest : List (Indicator τ × Request τ)}
    {j : Indicator τ} {c : Command} (h : r.steps = before ++ (j, .send c) :: rest) :
    sends before ++ [c] <+: r.commands := by
  change _ <+: sends r.steps
  rw [h, sends_append]
  exact (List.prefix_append_right_inj _).mpr (List.prefix_append [c] _)

variable {τ : Type} {i j : Indicator τ}

/-- What was rendered as the steps are taken. A command is put down before it is sent, so
that it counts as sent even where the screen cannot show it. -/
inductive Edged : Rendered → List (Indicator τ × Request τ) → Rendered → Prop where
  | nil (ρ : Rendered) : Edged ρ [] ρ
  | aside {ρ ρ' : Rendered} {j : Indicator τ} {q : Request τ}
      {steps : List (Indicator τ × Request τ)} (hq : q.command? = none)
      (h : Edged ρ steps ρ') : Edged ρ ((j, q) :: steps) ρ'
  | send {ρ ρ' : Rendered} {j : Indicator τ} {c : Command}
      {steps : List (Indicator τ × Request τ)} (hc : ρ.Lacks c) (hj : j.rendered = ρ.put c)
      (h : Edged (ρ.put c) steps ρ') : Edged ρ ((j, .send c) :: steps) ρ'

theorem Edged.append {ρ ρ' ρ'' : Rendered} {xs ys : List (Indicator τ × Request τ)}
    (hx : Edged ρ xs ρ') (hy : Edged ρ' ys ρ'') : Edged ρ (xs ++ ys) ρ'' := by
  induction hx with
  | nil => exact hy
  | aside hq h ih => exact .aside hq (ih hy)
  | send hc hj h ih => exact .send hc hj (ih hy)

theorem edged_of_silent {ρ : Rendered} {steps : List (Indicator τ × Request τ)}
    (h : ∀ p ∈ steps, p.2.command? = none) : Edged ρ steps ρ := by
  induction steps with
  | nil => exact .nil ρ
  | cons p steps ih =>
    refine .aside (h p List.mem_cons_self) (ih fun q hq => ?_)
    exact h q (List.mem_cons_of_mem _ hq)

structure SameMode (i j : Indicator τ) : Prop where
  attached : j.attached = i.attached
  settings : j.settings = i.settings

theorem SameMode.trans {k : Indicator τ} (h : SameMode i j) (h' : SameMode j k) :
    SameMode i k :=
  ⟨h'.attached.trans h.attached, h'.settings.trans h.settings⟩

structure Paced (i : Indicator τ) (r : Reaction τ) : Prop where
  edged : Edged i.rendered r.steps r.state.rendered
  mode : SameMode i r.state
  modes : ∀ p ∈ r.steps, SameMode i p.1

theorem Paced.andThen {r : Reaction τ} {next : Indicator τ → Reaction τ} (h : Paced i r)
    (hn : r.fault = none → Paced r.state (next r.state)) : Paced i (r.andThen next) := by
  cases hf : r.fault with
  | some f =>
    rw [andThen_of_some hf]
    exact h
  | none =>
    rw [andThen_of_none hf]
    obtain ⟨he, hm, hs⟩ := hn hf
    refine ⟨h.edged.append he, h.mode.trans hm, ?_⟩
    intro p hp
    rcases List.mem_append.mp hp with hp | hp
    · exact h.modes p hp
    · exact h.mode.trans (hs p hp)

theorem Paced.of_mode {r : Reaction τ} (h : Paced j r) (hm : SameMode i j)
    (hr : j.rendered = i.rendered) : Paced i r := by
  refine ⟨hr ▸ h.edged, hm.trans h.mode, ?_⟩
  intro p hp
  exact hm.trans (h.modes p hp)

theorem paced_quiet (i : Indicator τ) : Paced i i.quiet :=
  ⟨.nil _, ⟨rfl, rfl⟩, fun _ hp => (List.not_mem_nil hp).elim⟩

theorem paced_failing (i : Indicator τ) (f : Fault) : Paced i (i.failing f) :=
  ⟨.nil _, ⟨rfl, rfl⟩, fun _ hp => (List.not_mem_nil hp).elim⟩

theorem paced_asking {rs : List (Request τ)} (h : rs.filterMap Request.command? = []) :
    Paced i (i.asking rs) := by
  refine ⟨edged_of_silent ?_, ⟨rfl, rfl⟩, ?_⟩
  · intro p hp
    obtain ⟨q, hq, rfl⟩ := List.mem_map.mp hp
    exact List.filterMap_eq_nil_iff.mp h q hq
  · intro p hp
    obtain ⟨q, -, rfl⟩ := List.mem_map.mp hp
    exact ⟨rfl, rfl⟩

theorem paced_send {c : Command} (notes : List (Request τ)) (hc : i.rendered.Lacks c)
    (h : notes.filterMap Request.command? = []) :
    Paced i (asking { i with rendered := i.rendered.put c } (notes ++ [.send c])) := by
  refine ⟨?_, ⟨rfl, rfl⟩, ?_⟩
  · rw [asking, List.map_append]
    refine (edged_of_silent ?_).append (.send hc rfl (.nil _))
    intro p hp
    obtain ⟨q, hq, rfl⟩ := List.mem_map.mp hp
    exact List.filterMap_eq_nil_iff.mp h q hq
  · intro p hp
    obtain ⟨q, -, rfl⟩ := List.mem_map.mp hp
    exact ⟨rfl, rfl⟩

theorem paced_showText (l : Label) : Paced i (i.showText l) := by
  rw [showText]
  split
  · exact paced_quiet i
  · rename_i hne
    exact paced_send (c := .text l) [] ⟨by simp, Rendered.unsaid_of_ne (fun _ => rfl) hne⟩ rfl

theorem paced_showIcon (d : Direction) : Paced i (i.showIcon d) := by
  rw [showIcon]
  split
  · exact paced_quiet i
  · rename_i hne
    exact paced_send (c := .icon d) [] ⟨by simp, Rendered.unsaid_of_ne (fun _ => rfl) hne⟩ rfl

theorem paced_showTint : Paced i i.showTint := by
  rw [showTint]
  split
  · exact paced_quiet i
  · rename_i hne
    have hboth : i.hasTint = true ∧ i.tint.equal i.rendered.tint = false := by simpa using hne
    refine paced_send (c := .tint i.tint) [] ⟨?_, ?_⟩ rfl
    · intro heq
      injection heq with htint
      rw [hasTint, htint] at hboth
      exact Bool.false_ne_true hboth.1
    · intro d hd
      have hd' : d = .tint i.rendered.tint := by
        rw [Command.field, Rendered.command?] at hd
        split at hd
        · cases hd
        · exact (Option.some.inj hd).symm
      subst hd'
      exact hboth.2

theorem paced_showVisible (b : Bool) : Paced i (i.showVisible b) := by
  rw [showVisible]
  split
  · exact paced_quiet i
  · rename_i hne
    have hsent : Paced i (asking { i with rendered := { i.rendered with visible := some b } }
        [.note (.visibility b), .send (.visible b)]) :=
      paced_send (c := .visible b) [.note (.visibility b)]
        ⟨by simp, Rendered.unsaid_of_ne (fun _ => rfl) hne⟩ rfl
    refine hsent.andThen fun _ => ?_
    split
    · exact paced_showTint
    · exact paced_quiet _

theorem paced_renderLabel : Paced i i.renderLabel := by
  rw [renderLabel]
  split
  · cases i.label with
    | ok l => exact paced_showText l
    | error f => exact paced_failing i f
  · exact paced_quiet i

theorem paced_renderShown : Paced i i.renderShown := by
  rw [renderShown]
  refine (paced_showVisible _).andThen fun _ => ?_
  split
  · exact paced_showIcon _
  · exact paced_quiet _

theorem paced_render : Paced i i.render := paced_renderLabel.andThen fun _ => paced_renderShown

theorem paced_armNextTick : Paced i i.armNextTick := by
  rw [armNextTick]
  split
  · exact paced_asking rfl
  · exact paced_quiet i

theorem paced_refresh : Paced i i.refresh := by
  rw [refresh]
  split
  · exact paced_quiet i
  · exact (paced_asking rfl).andThen fun _ => paced_render.andThen fun _ => paced_armNextTick

theorem paced_renderIfAttached : Paced i i.renderIfAttached := by
  rw [renderIfAttached]
  split
  · exact paced_render
  · exact paced_quiet i

theorem paced_connectionChanged (b : Bool) : Paced i (i.connectionChanged b) := by
  refine Paced.of_mode (j := { i with connected := b }) ?_ ⟨rfl, rfl⟩ rfl
  exact (paced_asking rfl).andThen fun _ => paced_renderIfAttached

theorem paced_lockChanged (b : Bool) : Paced i (i.lockChanged b) :=
  Paced.of_mode (j := { i with locked := b }) paced_renderIfAttached ⟨rfl, rfl⟩ rfl

theorem paced_tintChanged (color : Value) (pinned : Bool) :
    Paced i (i.tintChanged color pinned) := by
  rw [tintChanged]
  split
  · exact paced_asking rfl
  · refine Paced.of_mode (j := { i with pinned := pinned, tint := color }) ?_ ⟨rfl, rfl⟩ rfl
    dsimp only
    split
    · exact paced_showTint
    · exact paced_quiet _

section Ticking

variable [TimeScale τ]

theorem paced_tick (reading : Except Fault (Reading τ)) : Paced i (i.tick reading) := by
  rw [tick]
  split
  · exact paced_quiet i
  · refine (paced_asking rfl).andThen fun _ => ?_
    dsimp only
    split
    · exact paced_failing _ _
    · exact Paced.of_mode (paced_render.andThen fun _ => paced_armNextTick) ⟨rfl, rfl⟩ rfl

theorem paced_settleIn (armed : Bool) : Paced i (i.settleIn armed) := by
  refine paced_render.andThen fun _ => ?_
  split
  · exact paced_asking rfl
  · exact paced_quiet _

end Ticking

/-- The indicator is detached, or enabled while it is attached; nothing else makes it forget
what was sent. -/
def resets (i j : Indicator τ) : Bool :=
  i.attached && (!j.attached || (!i.settings.enabled && j.settings.enabled))

theorem SameMode.resets (h : SameMode i j) : i.resets j = false := by
  rw [Indicator.resets, h.attached, h.settings]
  cases i.attached <;> cases i.settings.enabled <;> rfl

structure Silent (i : Indicator τ) (r : Reaction τ) : Prop where
  commands : r.commands = []
  rendered : r.state.rendered = if i.resets r.state then {} else i.rendered

theorem silent_join : Silent i i.join := by
  refine ⟨rfl, ?_⟩
  have hkept : i.resets i.join.state = false := by
    rw [resets, join_spec.1]
    cases i.attached <;> cases i.settings.enabled <;> rfl
  rw [hkept, join_spec.1]
  rfl

theorem silent_leave : Silent i i.leave := by
  rw [leave]
  split
  · rename_i ha
    refine ⟨rfl, ?_⟩
    have hreset : i.resets i.fresh = true := by
      rw [resets, ha]
      rfl
    exact (if_pos hreset).symm
  · rename_i ha
    refine ⟨rfl, ?_⟩
    have hkept : i.resets i = false := SameMode.resets ⟨rfl, rfl⟩
    rw [quiet_state, hkept]
    rfl

theorem silent_settingChanged [TimeScale τ] (key : LooseText) (v : Value) :
    Silent i (i.settingChanged key v) := by
  refine ⟨settingChanged_commands key v, ?_⟩
  cases settingChanged_taken (i := i) key v with
  | refused hu hr =>
    rw [hr, (SameMode.resets ⟨rfl, rfl⟩ : i.resets (i.failing _).state = false)]
    rfl
  | unknown hu hf hs ho =>
    rw [hs, (SameMode.resets ⟨rfl, rfl⟩ : i.resets i = false)]
    rfl
  | stored hu hf ha hs ho =>
    rw [hs, resets, ha]
    rfl
  | turnedOn hu hf ha ht hs ho =>
    have hon := ht
    simp only [turnsOn, Bool.and_eq_true] at hon
    rw [hs, resets, ha]
    simp [restart, hon.1.2, hon.2]
  | @changed s hu hf ha ht hs ho =>
    have hoff : (!i.settings.enabled && s.enabled) = false := by
      cases he : s.enabled with
      | false => exact Bool.and_false _
      | true => rw [enabled_of_not_turnsOn hu ht he]; rfl
    rw [hs, resets, ha, hoff]
    rfl

structure SameInputs (i j : Indicator τ) : Prop where
  settings : j.settings = i.settings
  connected : j.connected = i.connected
  locked : j.locked = i.locked
  sample : j.sample = i.sample

theorem SameInputs.label (h : SameInputs i j) : j.label = i.label := by
  rw [Indicator.label, Indicator.label, h.settings, h.sample]

theorem SameInputs.labels (h : SameInputs i j) : j.labels = i.labels := by
  rw [Indicator.labels, Indicator.labels, above, above, h.settings, h.connected, h.sample]

theorem SameInputs.visibilityInputs (h : SameInputs i j) (ht : j.rendered.text = i.rendered.text) :
    j.visibilityInputs = i.visibilityInputs := by
  rw [Indicator.visibilityInputs, Indicator.visibilityInputs, above, above, h.settings,
    h.connected, h.locked, h.sample, ht]

theorem renderShown_quiet (hv : j.rendered.visible = some j.visibilityInputs.shown)
    (hi : j.visibilityInputs.shown = true →
      j.rendered.icon = some (Direction.icon j.sample.rx j.sample.tx)) :
    j.renderShown = j.quiet := by
  rw [renderShown, showVisible, if_pos hv, quiet_andThen]
  split
  · rename_i hs
    rw [showIcon, if_pos (hi hs)]
  · rfl

theorem render_repeated (h : SameInputs i j) (hr : j.rendered = i.render.state.rendered) :
    j.render.commands = [] := by
  cases hf : i.renderLabel.fault with
  | some f =>
    -- the label cannot be made, neither the first time nor again
    have hj : ∃ f, j.renderLabel = j.failing f := by
      rw [renderLabel] at hf
      rw [renderLabel, h.labels, h.label]
      split at hf
      · rename_i hl
        rw [if_pos hl]
        cases he : i.label with
        | ok l => rw [he] at hf; simp at hf
        | error f => exact ⟨f, rfl⟩
      · cases hf
    obtain ⟨f, hj⟩ := hj
    rw [render, hj]
    rfl
  | none =>
    obtain ⟨c, hc⟩ := renderShown_state (i := i.renderLabel.state)
    rw [render, state_andThen hf, hc] at hr
    have hin : SameInputs i.renderLabel.state j ∧ j.renderLabel = j.quiet := by
      rcases renderLabel_state hf with ⟨hl, l, hlab, hs⟩ | ⟨hl, hs⟩
      · rw [hs] at hr ⊢
        refine ⟨⟨h.settings, h.connected, h.locked, h.sample⟩, ?_⟩
        rw [renderLabel, h.labels, h.label, if_pos hl, hlab]
        dsimp only
        rw [showText, if_pos (by rw [hr])]
      · rw [hs, renderLabel, h.labels, hl]
        exact ⟨h, rfl⟩
    obtain ⟨hin, hquiet⟩ := hin
    have hshown := congrArg Visibility.Inputs.shown (hin.visibilityInputs (by rw [hr]))
    rw [render, hquiet, quiet_andThen, renderShown_quiet]
    · rfl
    · rw [hshown, hr]
    · intro hs
      rw [hr, ← hshown, hs, hin.sample]
      rfl

end Indicator

end TrafficIndicator
