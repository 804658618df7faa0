import TrafficIndicator.Indicator.Handlers
import TrafficIndicator.Proofs.RateLabel

/-!
A reaction is summed up by its last state and by its orders, the requests that go to the
timers. A render pass gives no order, changes nothing but what was rendered, and leaves the
screen showing what the present state asks for.
-/
namespace TrafficIndicator

variable {τ : Type}

def Request.isOrder : Request τ → Bool
  | .arm .. => true
  | .disarm _ => true
  | _ => false

@[simp] theorem Request.isOrder_arm (kind : TimerKind) (delay : τ) :
    (Request.arm kind delay).isOrder = true := rfl

@[simp] theorem Request.isOrder_disarm (kind : TimerKind) :
    (Request.disarm kind : Request τ).isOrder = true := rfl

@[simp] theorem Request.isOrder_send (c : Command) : (Request.send c : Request τ).isOrder = false :=
  rfl

@[simp] theorem Request.isOrder_note (n : Notice τ) : (Request.note n).isOrder = false := rfl

namespace Reaction

def orders (r : Reaction τ) : List (Request τ) := r.requests.filter Request.isOrder

variable {r : Reaction τ} {next : Indicator τ → Reaction τ}

theorem fault_andThen :
    (r.andThen next).fault = none ↔ r.fault = none ∧ (next r.state).fault = none := by
  cases h : r.fault with
  | none => rw [andThen_of_none h]; simp
  | some f => rw [andThen_of_some h, h]; simp

theorem state_andThen (h : r.fault = none) :
    (r.andThen next).state = (next r.state).state := by
  rw [andThen_of_none h]

theorem orders_andThen (h : r.fault = none) :
    (r.andThen next).orders = r.orders ++ (next r.state).orders := by
  rw [orders, requests_andThen h, List.filter_append]
  rfl

/-- Parts that order nothing make a whole that orders nothing, faults or not. -/
theorem orders_andThen_nil (hr : r.orders = []) (hn : ∀ i, (next i).orders = []) :
    (r.andThen next).orders = [] := by
  cases h : r.fault with
  | none => rw [orders_andThen h, hr, hn]; rfl
  | some f => rw [andThen_of_some h, hr]

end Reaction

namespace Indicator

open Reaction

variable {i : Indicator τ}

@[simp] theorem quiet_fault : i.quiet.fault = none := rfl
@[simp] theorem quiet_state : i.quiet.state = i := rfl
@[simp] theorem quiet_orders : i.quiet.orders = [] := rfl
@[simp] theorem failing_fault (f : Fault) : (i.failing f).fault = some f := rfl
@[simp] theorem failing_orders (f : Fault) : (i.failing f).orders = [] := rfl
@[simp] theorem asking_fault (rs : List (Request τ)) : (i.asking rs).fault = none := rfl
@[simp] theorem asking_state (rs : List (Request τ)) : (i.asking rs).state = i := rfl

@[simp] theorem asking_orders (rs : List (Request τ)) :
    (i.asking rs).orders = rs.filter Request.isOrder := by
  simp [orders, requests, asking, Function.comp_def]

@[simp] theorem quiet_andThen (next : Indicator τ → Reaction τ) :
    i.quiet.andThen next = next i := rfl

@[simp] theorem asking_andThen_fault (rs : List (Request τ)) (next : Indicator τ → Reaction τ) :
    ((i.asking rs).andThen next).fault = (next i).fault := rfl

@[simp] theorem asking_andThen_state (rs : List (Request τ)) (next : Indicator τ → Reaction τ) :
    ((i.asking rs).andThen next).state = (next i).state := rfl

@[simp] theorem asking_andThen_orders (rs : List (Request τ)) (next : Indicator τ → Reaction τ) :
    ((i.asking rs).andThen next).orders = rs.filter Request.isOrder ++ (next i).orders := by
  rw [orders_andThen rfl, asking_orders]
  rfl

@[simp] theorem quiet_commands : i.quiet.commands = [] := rfl

@[simp] theorem asking_commands (rs : List (Request τ)) :
    (i.asking rs).commands = rs.filterMap Request.command? := by
  simp [commands, requests, asking, Function.comp_def]

@[simp] theorem asking_andThen_commands (rs : List (Request τ))
    (next : Indicator τ → Reaction τ) :
    ((i.asking rs).andThen next).commands =
      rs.filterMap Request.command? ++ (next i).commands := by
  rw [commands_andThen rfl, asking_commands]
  rfl

@[simp] theorem showText_fault (l : Label) : (i.showText l).fault = none := by
  rw [showText]; split <;> rfl

@[simp] theorem showText_orders (l : Label) : (i.showText l).orders = [] := by
  rw [showText]; split <;> rfl

@[simp] theorem showText_state (l : Label) :
    (i.showText l).state = { i with rendered := { i.rendered with text := some l } } := by
  rw [showText]
  split
  · rename_i h
    rw [quiet_state, ← h]
  · rfl

@[simp] theorem showIcon_fault (d : Direction) : (i.showIcon d).fault = none := by
  rw [showIcon]; split <;> rfl

@[simp] theorem showIcon_orders (d : Direction) : (i.showIcon d).orders = [] := by
  rw [showIcon]; split <;> rfl

@[simp] theorem showIcon_state (d : Direction) :
    (i.showIcon d).state = { i with rendered := { i.rendered with icon := some d } } := by
  rw [showIcon]
  split
  · rename_i h
    rw [quiet_state, ← h]
  · rfl

@[simp] theorem showTint_fault : i.showTint.fault = none := by
  rw [showTint]; split <;> rfl

@[simp] theorem showTint_orders : i.showTint.orders = [] := by
  rw [showTint]; split <;> rfl

theorem showTint_state :
    ∃ c, i.showTint.state = { i with rendered := { i.rendered with tint := c } } := by
  rw [showTint]
  split
  · exact ⟨i.rendered.tint, rfl⟩
  · exact ⟨i.tint, rfl⟩

@[simp] theorem showVisible_fault (b : Bool) : (i.showVisible b).fault = none := by
  rw [showVisible]
  split
  · rfl
  · refine fault_andThen.mpr ⟨rfl, ?_⟩
    split <;> simp

@[simp] theorem showVisible_orders (b : Bool) : (i.showVisible b).orders = [] := by
  rw [showVisible]
  split
  · rfl
  · refine orders_andThen_nil (by simp) fun j => ?_
    split <;> simp

theorem showVisible_state (b : Bool) :
    ∃ c, (i.showVisible b).state =
      { i with rendered := { i.rendered with visible := some b, tint := c } } := by
  rw [showVisible]
  split
  · rename_i h
    exact ⟨i.rendered.tint, by rw [quiet_state, ← h]⟩
  · rw [state_andThen rfl]
    cases b
    · exact ⟨i.rendered.tint, rfl⟩
    · exact showTint_state (i := { i with rendered := { i.rendered with visible := some true } })

theorem renderLabel_orders : i.renderLabel.orders = [] := by
  rw [renderLabel]
  split
  · split <;> simp
  · rfl

theorem renderLabel_state (h : i.renderLabel.fault = none) :
    (i.labels = true ∧ ∃ l, i.label = .ok l ∧
      i.renderLabel.state = { i with rendered := { i.rendered with text := some l } }) ∨
    (i.labels = false ∧ i.renderLabel.state = i) := by
  rw [renderLabel] at h ⊢
  split
  · rename_i hl
    rw [if_pos hl] at h
    left
    cases he : i.label with
    | ok l => exact ⟨hl, l, rfl, showText_state l⟩
    | error f => rw [he] at h; cases h
  · rename_i hl
    exact Or.inr ⟨by simpa using hl, rfl⟩

theorem renderShown_fault : i.renderShown.fault = none := by
  rw [renderShown]
  refine fault_andThen.mpr ⟨showVisible_fault _, ?_⟩
  split <;> simp

theorem renderShown_orders : i.renderShown.orders = [] := by
  rw [renderShown]
  refine orders_andThen_nil (showVisible_orders _) fun j => ?_
  split <;> simp

theorem renderShown_state :
    ∃ c, i.renderShown.state =
      { i with rendered := { i.rendered with
          visible := some i.visibilityInputs.shown
          tint := c
          icon := if i.visibilityInputs.shown then some (Direction.icon i.sample.rx i.sample.tx)
            else i.rendered.icon } } := by
  obtain ⟨c, hc⟩ := showVisible_state (i := i) i.visibilityInputs.shown
  refine ⟨c, ?_⟩
  rw [renderShown, state_andThen (showVisible_fault _), hc]
  split
  · rw [showIcon_state]
  · rfl

theorem render_orders : i.render.orders = [] :=
  orders_andThen_nil renderLabel_orders fun _ => renderShown_orders

theorem render_state : ∃ ρ, i.render.state = { i with rendered := ρ } := by
  cases h : i.renderLabel.fault with
  | some f =>
    rw [render, andThen_of_some h]
    refine ⟨i.rendered, ?_⟩
    rw [renderLabel] at h ⊢
    split at h
    · cases he : i.label with
      | ok l => rw [he] at h; simp at h
      | error f => rw [if_pos ‹_›]; rfl
    · simp at h
  | none =>
    rw [render, state_andThen h]
    rcases renderLabel_state h with ⟨-, l, -, hs⟩ | ⟨-, hs⟩
    · obtain ⟨c, hc⟩ := renderShown_state (i := i.renderLabel.state)
      rw [hc, hs]
      exact ⟨_, rfl⟩
    · obtain ⟨c, hc⟩ := renderShown_state (i := i.renderLabel.state)
      rw [hc, hs]
      exact ⟨_, rfl⟩

/-- Whether the indicator is to be seen: enabled, connected, not locked, and not hiding
itself for want of traffic in either direction. -/
def shouldShow (i : Indicator τ) : Bool :=
  i.settings.enabled && i.connected && !i.locked &&
    (!i.settings.autoHide || decide (10000 < i.sample.rx) || decide (10000 < i.sample.tx))

theorem shouldShow_eq : i.shouldShow = (i.labels && !i.locked) := by
  rw [shouldShow, labels, above, Visibility.isAbove, Visibility.autoHideThreshold]
  cases i.settings.enabled <;> cases i.connected <;> cases i.locked <;>
    cases i.settings.autoHide <;> simp [Bool.or_comm]

/-- The screen was last told what the present state asks for. -/
structure Current (i : Indicator τ) : Prop where
  visible : i.rendered.visible = some i.shouldShow
  text : i.shouldShow = true → ∃ l, i.label = .ok l ∧ i.rendered.text = some l
  icon : i.shouldShow = true →
    i.rendered.icon = some (Direction.icon i.sample.rx i.sample.tx)

/-- With a label in place the wish for text hides nothing; without one, what should show does
not depend on it. -/
theorem inputs_shown (h : i.labels = true → ∃ l, i.label = .ok l ∧ i.rendered.text = some l) :
    i.visibilityInputs.shown = i.shouldShow := by
  rw [shouldShow_eq, Visibility.Inputs.shown, visibilityInputs]
  dsimp only
  cases hl : i.labels with
  | false =>
    rw [labels] at hl
    cases he : i.settings.enabled <;> cases hc : i.connected <;> simp_all
  | true =>
    obtain ⟨l, hlab, ht⟩ := h hl
    have hv : decide (l.value ≠ "") = true := by simpa using Label.value_ne_empty hlab
    rw [labels] at hl
    simp only [Bool.and_eq_true] at hl
    rw [ht, Option.any_some, hv, hl.1.1, hl.1.2, hl.2]
    simp

theorem render_current (h : i.render.fault = none) : Current i.render.state := by
  rw [render, fault_andThen] at h
  rw [render, state_andThen h.1]
  obtain ⟨c, hc⟩ := renderShown_state (i := i.renderLabel.state)
  rcases renderLabel_state h.1 with ⟨hl, l, hlab, hs⟩ | ⟨hl, hs⟩
  · have hi := inputs_shown (i := i.renderLabel.state) (by rw [hs]; exact fun _ => ⟨l, hlab, rfl⟩)
    rw [hi, hs] at hc
    rw [hs, hc]
    exact ⟨rfl, fun _ => ⟨l, hlab, rfl⟩, fun hsh => if_pos hsh⟩
  · have hi := inputs_shown (i := i.renderLabel.state)
      (by rw [hs, hl]; exact fun hf => absurd hf Bool.false_ne_true)
    have hn : i.shouldShow = false := by rw [shouldShow_eq, hl, Bool.false_and]
    rw [hi, hs] at hc
    rw [hs, hc]
    refine ⟨rfl, ?_, ?_⟩
    · intro hsh
      exact absurd (hn.symm.trans hsh) Bool.false_ne_true
    · intro hsh
      exact absurd (hn.symm.trans hsh) Bool.false_ne_true

end Indicator

end TrafficIndicator
