import TrafficIndicator.Proofs.ScreenSafety
import TrafficIndicator.Proofs.TintHistory

/-!
A render pass tells the screen to show the indicator or to hide it as the present state asks
for, or says nothing of it, because that was told last or because the pass broke off before.
Connections and locks that are delivered, and settling in, say nothing else.
-/
namespace TrafficIndicator

/-- What was rendered of being seen after some commands that all say the same of it. -/
theorem Rendered.Emitted.visible {ρ ρ' : Rendered} {cs : List Command} (h : ρ.Emitted cs ρ')
    {shown : Bool} (hs : ∀ b, .visible b ∈ cs → b = shown) :
    (.visible shown ∈ cs ∧ ρ'.visible = some shown) ∨
      ((∀ b, .visible b ∉ cs) ∧ ρ'.visible = ρ.visible) := by
  induction h with
  | nil => exact .inr ⟨fun _ => List.not_mem_nil, rfl⟩
  | @cons ρ ρ' c cs hc h ih =>
    have hrest := ih fun b hb => hs b (List.mem_cons_of_mem c hb)
    cases c with
    | visible b =>
      obtain rfl := hs b List.mem_cons_self
      refine .inl ⟨List.mem_cons_self, ?_⟩
      rcases hrest with ⟨-, hv⟩ | ⟨-, hv⟩
      · exact hv
      · exact hv
    | text | icon | tint =>
      rcases hrest with ⟨hmem, hv⟩ | ⟨hnone, hv⟩
      · exact .inl ⟨List.mem_cons_of_mem _ hmem, hv⟩
      · refine .inr ⟨fun b hb => ?_, hv⟩
        rcases List.mem_cons.mp hb with hhead | hb
        · cases hhead
        · exact hnone b hb

namespace Indicator

open Reaction

variable {τ : Type} {i : Indicator τ}

/-- A reaction that changes nothing of the indicator but what was rendered, at its end and at
each of its steps. -/
structure Dresses (i : Indicator τ) (r : Reaction τ) : Prop where
  state : ∃ ρ, r.state = { i with rendered := ρ }
  states : ∀ p ∈ r.steps, ∃ ρ, p.1 = { i with rendered := ρ }

theorem Dresses.andThen {r : Reaction τ} {next : Indicator τ → Reaction τ} (h : Dresses i r)
    (hn : ∀ ρ, Dresses { i with rendered := ρ } (next { i with rendered := ρ })) :
    Dresses i (r.andThen next) := by
  cases hf : r.fault with
  | some f =>
    rw [andThen_of_some hf]
    exact h
  | none =>
    obtain ⟨ρ, hρ⟩ := h.state
    have hnext := hn ρ
    rw [← hρ] at hnext
    obtain ⟨ρ', hρ'⟩ := hnext.state
    rw [andThen_of_none hf]
    refine ⟨⟨ρ', ?_⟩, fun p hp => ?_⟩
    · rw [hρ', hρ]
    · rcases List.mem_append.mp hp with hp | hp
      · exact h.states p hp
      · obtain ⟨ρ'', hp''⟩ := hnext.states p hp
        exact ⟨ρ'', by rw [hp'', hρ]⟩

theorem dresses_asking (ρ : Rendered) (rs : List (Request τ)) :
    Dresses i (asking { i with rendered := ρ } rs) := by
  refine ⟨⟨ρ, rfl⟩, fun p hp => ?_⟩
  obtain ⟨q, -, rfl⟩ := List.mem_map.mp hp
  exact ⟨ρ, rfl⟩

theorem dresses_quiet (i : Indicator τ) : Dresses i i.quiet := dresses_asking i.rendered []

theorem dresses_showTint : Dresses i i.showTint := by
  rw [showTint]
  split
  · exact dresses_quiet i
  · exact dresses_asking _ _

theorem dresses_showVisible (b : Bool) : Dresses i (i.showVisible b) := by
  rw [showVisible]
  split
  · exact dresses_quiet i
  · refine (dresses_asking _ _).andThen fun ρ => ?_
    split
    · exact dresses_showTint
    · exact dresses_quiet _

theorem dresses_renderLabel : Dresses i i.renderLabel := by
  rw [renderLabel]
  split
  · cases i.label with
    | ok l =>
      dsimp only
      rw [showText]
      split
      · exact dresses_quiet i
      · exact dresses_asking _ _
    | error f => exact ⟨⟨i.rendered, rfl⟩, fun _ hp => absurd hp List.not_mem_nil⟩
  · exact dresses_quiet i

theorem dresses_renderShown : Dresses i i.renderShown := by
  rw [renderShown]
  refine (dresses_showVisible _).andThen fun ρ => ?_
  split
  · rw [showIcon]
    split
    · exact dresses_quiet _
    · exact dresses_asking _ _
  · exact dresses_quiet _

theorem dresses_render : Dresses i i.render :=
  dresses_renderLabel.andThen fun _ => dresses_renderShown

theorem dresses_renderIfAttached : Dresses i i.renderIfAttached := by
  rw [renderIfAttached]
  split
  · exact dresses_render
  · exact dresses_quiet i

theorem dresses_connectionChanged (b : Bool) :
    Dresses { i with connected := b } (i.connectionChanged b) :=
  (dresses_asking _ _).andThen fun _ => dresses_renderIfAttached

theorem dresses_lockChanged (b : Bool) : Dresses { i with locked := b } (i.lockChanged b) :=
  dresses_renderIfAttached

theorem dresses_tintChanged (color : Value) (pinned : Bool) :
    ∃ p t, Dresses { i with pinned := p, tint := t } (i.tintChanged color pinned) := by
  rw [tintChanged]
  split
  · exact ⟨i.pinned, i.tint, dresses_asking i.rendered _⟩
  · refine ⟨pinned, color, ?_⟩
    dsimp only
    split
    · exact dresses_showTint
    · exact dresses_quiet _

theorem dresses_settleIn [TimeScale τ] (armed : Bool) : Dresses i (i.settleIn armed) := by
  refine dresses_render.andThen fun ρ => ?_
  split
  · exact dresses_asking ρ _
  · exact dresses_quiet _

theorem visible_of_showVisible {shown b : Bool}
    (h : .visible b ∈ (i.showVisible shown).commands) : b = shown := by
  have htint : ∀ j : Indicator τ, .visible b ∉ j.showTint.commands := by
    intro j
    rw [showTint]
    split <;> simp [Request.command?]
  rw [showVisible] at h
  split at h
  · cases h
  · rw [asking_andThen_commands] at h
    rcases List.mem_append.mp h with h | h
    · have hb : shown = b := by simpa [Request.command?] using h
      exact hb.symm
    · split at h
      · exact absurd h (htint _)
      · cases h

theorem visible_of_renderShown {b : Bool} (h : .visible b ∈ i.renderShown.commands) :
    b = i.visibilityInputs.shown := by
  have hicon : ∀ (j : Indicator τ) d, .visible b ∉ (j.showIcon d).commands := by
    intro j d
    rw [showIcon]
    split <;> simp [Request.command?]
  rw [renderShown, commands_andThen (showVisible_fault _)] at h
  rcases List.mem_append.mp h with h | h
  · exact visible_of_showVisible h
  · split at h
    · exact absurd h (hicon _ _)
    · cases h

theorem visible_notMem_renderLabel (b : Bool) : .visible b ∉ i.renderLabel.commands := by
  rw [renderLabel]
  split
  · cases i.label with
    | ok l =>
      dsimp only
      rw [showText]
      split <;> simp [Request.command?]
    | error f => exact List.not_mem_nil
  · exact List.not_mem_nil

theorem shown_of_renderLabel (h : i.renderLabel.fault = none) :
    i.renderLabel.state.visibilityInputs.shown = i.shouldShow := by
  rcases renderLabel_state h with ⟨-, l, hlabel, hs⟩ | ⟨hl, hs⟩
  · have hshown := inputs_shown (i := i.renderLabel.state) (by
      rw [hs]
      exact fun _ => ⟨l, hlabel, rfl⟩)
    rw [hshown, hs]
    rfl
  · rw [hs]
    exact inputs_shown fun hlabels => absurd (hl.symm.trans hlabels) Bool.false_ne_true

theorem visible_of_render {b : Bool} (h : .visible b ∈ i.render.commands) : b = i.shouldShow := by
  cases hf : i.renderLabel.fault with
  | some f =>
    rw [render, andThen_of_some hf] at h
    exact absurd h (visible_notMem_renderLabel b)
  | none =>
    rw [render, commands_andThen hf] at h
    rcases List.mem_append.mp h with h | h
    · exact absurd h (visible_notMem_renderLabel b)
    · exact (visible_of_renderShown h).trans (shown_of_renderLabel hf)

theorem visible_of_renderIfAttached {b : Bool} (h : .visible b ∈ i.renderIfAttached.commands) :
    b = i.shouldShow := by
  rw [renderIfAttached] at h
  split at h
  · exact visible_of_render h
  · cases h

theorem visible_of_connectionChanged {b connected : Bool}
    (h : .visible b ∈ (i.connectionChanged connected).commands) :
    b = shouldShow { i with connected := connected } := by
  rw [connectionChanged, asking_andThen_commands] at h
  exact visible_of_renderIfAttached h

theorem visible_of_settleIn [TimeScale τ] {b armed : Bool}
    (h : .visible b ∈ (i.settleIn armed).commands) : b = i.shouldShow := by
  cases hf : i.render.fault with
  | some f =>
    rw [settleIn, andThen_of_some hf] at h
    exact visible_of_render h
  | none =>
    rw [settleIn, commands_andThen hf] at h
    rcases List.mem_append.mp h with h | h
    · exact visible_of_render h
    · split at h
      · cases h
      · cases h

end Indicator

namespace Panel

open Loop Indicator

variable {τ : Type} [TimeScale τ]

/-- From a state `j` that is to be seen or not, something was rendered and some commands were
sent: either they say so, or they say nothing of it. -/
structure Dressed (j : Indicator τ) (shown : Bool) (k : Indicator τ) (cs : List Command) :
    Prop where
  state : ∃ ρ, k = { j with rendered := ρ }
  told : ∀ b, .visible b ∈ cs → b = shown
  visible : (.visible shown ∈ cs ∧ k.rendered.visible = some shown) ∨
    ((∀ b, .visible b ∉ cs) ∧ k.rendered.visible = j.rendered.visible)

theorem dressed_react (setup : Setup τ) {f : Indicator τ → Reaction τ} {l : Running τ}
    {j : Indicator τ} {shown : Bool} (hd : Dresses j (f l.host.owner.indicator))
    (hj : j.rendered = l.host.owner.indicator.rendered)
    (hp : Paced l.host.owner.indicator (f l.host.owner.indicator))
    (hs : ∀ b, .visible b ∈ (f l.host.owner.indicator).commands → b = shown) :
    let m := after (react setup f) l
    ∃ cs, m.host.owner.screen.sent = l.host.owner.screen.sent ++ cs ∧
      Dressed j shown m.host.owner.indicator cs := by
  intro m
  have hstate : ∃ ρ, m.host.owner.indicator = { j with rendered := ρ } := by
    rcases indicator_after_react setup f l with hi | ⟨p, hmem, -, hi⟩
    · rw [hi]
      exact hd.state
    · rw [hi]
      exact hd.states p hmem
  have hemitted : ∃ cs, m.host.owner.screen.sent = l.host.owner.screen.sent ++ cs ∧
      l.host.owner.indicator.rendered.Emitted cs m.host.owner.indicator.rendered := by
    rcases endsIn_iff_after.mp (endsIn_react setup hp.edged) with
      ⟨hi, hsent, he⟩ | ⟨-, -, cs, hsent, he⟩
    · rw [hi]
      exact ⟨_, hsent, he⟩
    · exact ⟨cs, hsent, he⟩
  obtain ⟨cs, hsent, he⟩ := hemitted
  obtain ⟨halt, hup⟩ := upshot_react setup f l
  obtain ⟨ds, hpre, hsent'⟩ := hup.sent
  obtain rfl : cs = ds := List.append_cancel_left (hsent.symm.trans hsent')
  have htold : ∀ b, .visible b ∈ cs → b = shown := fun b hb => hs b (hpre.subset hb)
  refine ⟨cs, hsent, hstate, htold, ?_⟩
  rw [hj]
  exact he.visible htold

end Panel

end TrafficIndicator
