import TrafficIndicator.Proofs.Emissions

/-!
A label that is sent is the one of the rates at the time. A tint that is sent is the one that
was accepted, and the indicator is shown then; one that was accepted while it was not shown is
sent when it comes to be shown. Only a tint itself, or the end of an attachment, changes what
was accepted.
-/
namespace TrafficIndicator.Indicator

open Reaction

variable {τ : Type} {i j : Indicator τ}

/-- What a request says of labels and tints is so in the state in which it is made. -/
def Means (i : Indicator τ) : Request τ → Prop
  | .send (.text l) => i.label = .ok l
  | .send (.tint color) => i.tint = color ∧ i.rendered.visible = some true
  | _ => True

theorem means_of_silent {q : Request τ} (h : q.command? = none) : i.Means q := by
  cases q with
  | send c => cases h
  | arm | disarm | note => trivial

structure SameTint (i j : Indicator τ) : Prop where
  tint : j.tint = i.tint
  pinned : j.pinned = i.pinned

theorem SameTint.trans {k : Indicator τ} (h : SameTint i j) (h' : SameTint j k) : SameTint i k :=
  ⟨h'.tint.trans h.tint, h'.pinned.trans h.pinned⟩

def Flushed (i : Indicator τ) : Prop :=
  i.rendered.visible = some true → i.hasTint = true →
    i.rendered.tint = i.tint ∨ i.tint.equal i.rendered.tint = true

theorem flushed_congr (ht : j.tint = i.tint) (hr : j.rendered.tint = i.rendered.tint)
    (hv : j.rendered.visible = i.rendered.visible) : Flushed j ↔ Flushed i := by
  rw [Flushed, Flushed, hasTint, hasTint, ht, hr, hv]

theorem flushed_of_unseen (h : i.rendered.visible ≠ some true) : Flushed i :=
  fun hv _ => absurd hv h

def Settles (c : Command) : Prop := c.field = .tint ∨ c.field = .visible

/-- A reaction that says what is so at each of its steps and changes nothing about what was
accepted. Once it has sent a tint, or whether the indicator is shown, the tint is in place; only
between a command to show the indicator and the next it need not be. -/
structure Candid (i : Indicator τ) (r : Reaction τ) : Prop where
  tint : SameTint i r.state
  tints : ∀ p ∈ r.steps, SameTint i p.1
  means : ∀ p ∈ r.steps, p.1.Means p.2
  flushes : (Flushed i ∨ ∃ c ∈ r.commands, Settles c) → Flushed r.state
  midway : ∀ before j c rest, r.steps = before ++ (j, .send c) :: rest →
    (Flushed i ∨ ∃ d ∈ sends before ++ [c], Settles d) → Flushed j ∨ c = .visible true

theorem split_append {α : Type} {xs ys before rest : List α} {p : α}
    (h : xs ++ ys = before ++ p :: rest) :
    (∃ rest', xs = before ++ p :: rest') ∨
      ∃ before', before = xs ++ before' ∧ ys = before' ++ p :: rest := by
  rcases List.append_eq_append_iff.mp h with ⟨before', hb, hy⟩ | ⟨rest', hx, hrest⟩
  · exact Or.inr ⟨before', hb, hy⟩
  · cases rest' with
    | nil => exact Or.inr ⟨[], by simpa using hx.symm, by simpa using hrest.symm⟩
    | cons q rest' =>
      obtain ⟨rfl, -⟩ := List.cons.inj hrest
      exact Or.inl ⟨rest', hx⟩

theorem Candid.andThen {r : Reaction τ} {next : Indicator τ → Reaction τ} (h : Candid i r)
    (hn : r.fault = none → Candid r.state (next r.state)) : Candid i (r.andThen next) := by
  cases hf : r.fault with
  | some f =>
    rw [andThen_of_some hf]
    exact h
  | none =>
    obtain ⟨ht, hts, hmeans, hflush, hmid⟩ := hn hf
    have hcommands := commands_andThen hf next
    rw [andThen_of_none hf] at hcommands ⊢
    refine ⟨h.tint.trans ht, fun p hp => ?_, fun p hp => ?_, fun hpre => hflush ?_, ?_⟩
    · rcases List.mem_append.mp hp with hp | hp
      · exact h.tints p hp
      · exact h.tint.trans (hts p hp)
    · rcases List.mem_append.mp hp with hp | hp
      · exact h.means p hp
      · exact hmeans p hp
    · rw [hcommands] at hpre
      rcases hpre with hi | ⟨c, hc, hsettles⟩
      · exact Or.inl (h.flushes (Or.inl hi))
      · rcases List.mem_append.mp hc with hc | hc
        · exact Or.inl (h.flushes (Or.inr ⟨c, hc, hsettles⟩))
        · exact Or.inr ⟨c, hc, hsettles⟩
    · intro before j c rest hsplit hpre
      rcases split_append hsplit with ⟨rest', hr⟩ | ⟨before', rfl, hy⟩
      · exact h.midway before j c rest' hr hpre
      · refine hmid before' j c rest hy ?_
        rcases hpre with hi | ⟨d, hd, hsettles⟩
        · exact Or.inl (h.flushes (Or.inl hi))
        · rw [sends_append, List.append_assoc] at hd
          rcases List.mem_append.mp hd with hd | hd
          · exact Or.inl (h.flushes (Or.inr ⟨d, hd, hsettles⟩))
          · exact Or.inr ⟨d, hd, hsettles⟩

theorem Candid.of_same {r : Reaction τ} (h : Candid j r) (ht : SameTint i j)
    (hr : j.rendered = i.rendered) : Candid i r := by
  have hflushed : Flushed j ↔ Flushed i := flushed_congr ht.tint (by rw [hr]) (by rw [hr])
  refine ⟨ht.trans h.tint, fun p hp => ht.trans (h.tints p hp), h.means, ?_, ?_⟩
  · rw [← hflushed]
    exact h.flushes
  · rw [← hflushed]
    exact h.midway

theorem candid_asking {rs : List (Request τ)} (h : rs.filterMap Request.command? = []) :
    Candid i (i.asking rs) := by
  have hstep : ∀ p ∈ (i.asking rs).steps, p.1 = i ∧ p.2.command? = none := by
    intro p hp
    obtain ⟨q, hq, rfl⟩ := List.mem_map.mp hp
    exact ⟨rfl, List.filterMap_eq_nil_iff.mp h q hq⟩
  refine ⟨⟨rfl, rfl⟩, fun p hp => ?_, fun p hp => means_of_silent (hstep p hp).2, ?_, ?_⟩
  · rw [(hstep p hp).1]
    exact ⟨rfl, rfl⟩
  · rw [asking_commands, h]
    rintro (hi | ⟨c, hc, -⟩)
    · exact hi
    · cases hc
  · intro before j c rest hsplit
    have hmem : (j, .send c) ∈ (i.asking rs).steps := by
      rw [hsplit]
      simp
    have hnone := (hstep _ hmem).2
    cases hnone

theorem candid_quiet (i : Indicator τ) : Candid i i.quiet := @candid_asking τ i [] rfl

theorem candid_failing (i : Indicator τ) (f : Fault) : Candid i (i.failing f) := by
  obtain ⟨ht, hts, hmeans, hflush, hmid⟩ := candid_quiet i
  exact ⟨ht, hts, hmeans, hflush, hmid⟩

/-- A command that is sent with notes before it and leaves a tint in place. -/
theorem candid_send {ρ : Rendered} {c : Command} (notes : List (Request τ))
    (hn : notes.filterMap Request.command? = [])
    (hs : Means { i with rendered := ρ } (.send c))
    (hf : Flushed i ∨ Settles c → Flushed { i with rendered := ρ }) :
    Candid i (asking { i with rendered := ρ } (notes ++ [.send c])) := by
  have hstate : ∀ p ∈ (asking { i with rendered := ρ } (notes ++ [.send c])).steps,
      p.1 = { i with rendered := ρ } := by
    intro p hp
    obtain ⟨q, -, rfl⟩ := List.mem_map.mp hp
    rfl
  have hcommands : (asking { i with rendered := ρ } (notes ++ [.send c])).commands = [c] := by
    rw [asking_commands, List.filterMap_append, hn]
    rfl
  refine ⟨⟨rfl, rfl⟩, fun p hp => ?_, fun p hp => ?_, ?_, ?_⟩
  · rw [hstate p hp]
    exact ⟨rfl, rfl⟩
  · obtain ⟨q, hq, rfl⟩ := List.mem_map.mp hp
    rcases List.mem_append.mp hq with hq | hq
    · exact means_of_silent (List.filterMap_eq_nil_iff.mp hn q hq)
    · rw [List.mem_singleton.mp hq]
      exact hs
  · rw [hcommands]
    rintro (hi | ⟨d, hd, hsettles⟩)
    · exact hf (Or.inl hi)
    · rw [List.mem_singleton.mp hd] at hsettles
      exact hf (Or.inr hsettles)
  · intro before j d rest hsplit hpre
    have hj := hstate (j, .send d) (by rw [hsplit]; simp)
    dsimp only at hj
    rw [hj]
    -- all that was sent by then is the one command
    have hinitial : sends before ++ [d] <+: [c] := by
      rw [← hcommands]
      exact sends_initial hsplit
    refine Or.inl (hf (hpre.imp id ?_))
    rintro ⟨e, he, hsettles⟩
    rw [← List.mem_singleton.mp (hinitial.subset he)]
    exact hsettles

theorem candid_showText {l : Label} (h : i.label = .ok l) : Candid i (i.showText l) := by
  rw [showText]
  split
  · exact candid_quiet i
  · exact candid_send (c := .text l) [] rfl h (·.resolve_right (by simp [Settles, Command.field]))

theorem candid_showIcon (d : Direction) : Candid i (i.showIcon d) := by
  rw [showIcon]
  split
  · exact candid_quiet i
  · exact candid_send (c := .icon d) [] rfl trivial
      (·.resolve_right (by simp [Settles, Command.field]))

theorem flushed_showTint : Flushed i.showTint.state := by
  rw [showTint]
  split
  · rename_i h
    intro _ ht
    rw [quiet_state] at ht ⊢
    rw [ht] at h
    exact Or.inr (by simpa using h)
  · exact fun _ _ => Or.inl rfl

theorem steps_showTint {p : Indicator τ × Request τ} (hp : p ∈ i.showTint.steps) :
    p = ({ i with rendered := { i.rendered with tint := i.tint } }, .send (.tint i.tint)) := by
  rw [showTint] at hp
  split at hp
  · exact (List.not_mem_nil hp).elim
  · exact List.mem_singleton.mp hp

theorem flushed_of_showTint {p : Indicator τ × Request τ} (hp : p ∈ i.showTint.steps) :
    Flushed p.1 := by
  rw [steps_showTint hp]
  exact fun _ _ => Or.inl rfl

theorem candid_showTint (h : i.rendered.visible = some true) : Candid i i.showTint := by
  refine ⟨?_, fun p hp => ?_, fun p hp => ?_, fun _ => flushed_showTint, ?_⟩
  · obtain ⟨c, hc⟩ := showTint_state (i := i)
    rw [hc]
    exact ⟨rfl, rfl⟩
  · rw [steps_showTint hp]
    exact ⟨rfl, rfl⟩
  · rw [steps_showTint hp]
    exact ⟨rfl, h⟩
  · intro before j c rest hsplit _
    exact Or.inl (flushed_of_showTint (p := (j, .send c)) (by rw [hsplit]; simp))

theorem candid_showVisible (b : Bool) : Candid i (i.showVisible b) := by
  rw [showVisible]
  split
  · exact candid_quiet i
  · cases b with
    | false =>
      have hunseen : Flushed { i with rendered := { i.rendered with visible := some false } } :=
        flushed_of_unseen (by simp)
      have hsent : Candid i (asking { i with rendered := { i.rendered with visible := some false } }
          [.note (.visibility false), .send (.visible false)]) :=
        candid_send (c := .visible false) [.note (.visibility false)] rfl trivial fun _ => hunseen
      exact hsent.andThen fun _ => candid_quiet _
    | true =>
      -- before the tint follows it need not be in place
      let k : Indicator τ := { i with rendered := { i.rendered with visible := some true } }
      obtain ⟨ht, hts, hmeans, -, -⟩ := candid_showTint (i := k) rfl
      have hall : (asking k [.note (.visibility true), .send (.visible true)]).andThen
          (fun i => if true then i.showTint else i.quiet) =
          ⟨k.showTint.state, [(k, .note (.visibility true)), (k, .send (.visible true))] ++
            k.showTint.steps, k.showTint.fault⟩ := andThen_of_none rfl _
      rw [hall]
      refine ⟨⟨ht.tint, ht.pinned⟩, fun p hp => ?_, fun p hp => ?_, fun _ => flushed_showTint, ?_⟩
      · rcases List.mem_append.mp hp with hp | hp
        · simp only [List.mem_cons, List.not_mem_nil, or_false] at hp
          rcases hp with rfl | rfl <;> exact ⟨rfl, rfl⟩
        · exact ⟨(hts p hp).tint, (hts p hp).pinned⟩
      · rcases List.mem_append.mp hp with hp | hp
        · simp only [List.mem_cons, List.not_mem_nil, or_false] at hp
          rcases hp with rfl | rfl <;> trivial
        · exact hmeans p hp
      · intro before j c rest hsplit _
        dsimp only at hsplit
        have hp : (j, .send c) ∈ [(k, .note (.visibility true)), (k, .send (.visible true))] ++
            k.showTint.steps := by
          rw [hsplit]
          simp
        rcases List.mem_append.mp hp with hp | hp
        · simp only [List.mem_cons, Prod.mk.injEq, reduceCtorEq, and_false, Request.send.injEq,
            List.not_mem_nil, or_false, false_or] at hp
          exact Or.inr hp.2
        · exact Or.inl (flushed_of_showTint hp)

theorem candid_renderLabel : Candid i i.renderLabel := by
  rw [renderLabel]
  split
  · cases h : i.label with
    | ok l => exact candid_showText h
    | error f => exact candid_failing i f
  · exact candid_quiet i

theorem candid_renderShown : Candid i i.renderShown := by
  rw [renderShown]
  refine (candid_showVisible _).andThen fun _ => ?_
  split
  · exact candid_showIcon _
  · exact candid_quiet _

theorem candid_render : Candid i i.render :=
  candid_renderLabel.andThen fun _ => candid_renderShown

theorem candid_armNextTick : Candid i i.armNextTick := by
  rw [armNextTick]
  split
  · exact candid_asking rfl
  · exact candid_quiet i

theorem candid_refresh : Candid i i.refresh := by
  rw [refresh]
  split
  · exact candid_quiet i
  · exact (candid_asking rfl).andThen fun _ => candid_render.andThen fun _ => candid_armNextTick

theorem candid_renderIfAttached : Candid i i.renderIfAttached := by
  rw [renderIfAttached]
  split
  · exact candid_render
  · exact candid_quiet i

theorem candid_connectionChanged (b : Bool) : Candid i (i.connectionChanged b) := by
  refine Candid.of_same (j := { i with connected := b }) ?_ ⟨rfl, rfl⟩ rfl
  exact (candid_asking rfl).andThen fun _ => candid_renderIfAttached

theorem candid_lockChanged (b : Bool) : Candid i (i.lockChanged b) :=
  Candid.of_same (j := { i with locked := b }) candid_renderIfAttached ⟨rfl, rfl⟩ rfl

theorem candid_join : Candid i i.join :=
  Candid.of_same (j := { i with attached := true }) (candid_asking rfl) ⟨rfl, rfl⟩ rfl

def accept (color : Value) (pinned : Bool) (i : Indicator τ) : Indicator τ :=
  if i.pinned && !pinned then i else { i with pinned := pinned, tint := color }

/-- A tint that is accepted while the indicator is shown is sent at once. -/
theorem flushed_tintChanged {color : Value} {pinned : Bool}
    (hd : i.attached = false → i.rendered.visible ≠ some true)
    (hpre : Flushed i ∨ ∃ c ∈ (i.tintChanged color pinned).commands, Settles c) :
    Flushed (i.tintChanged color pinned).state := by
  rw [tintChanged] at hpre ⊢
  split
  · rename_i h
    rw [if_pos h] at hpre
    exact (candid_asking (i := i) rfl).flushes hpre
  · dsimp only
    split
    · exact flushed_showTint
    · rename_i h
      refine flushed_of_unseen fun hv => ?_
      cases ha : i.attached with
      | false => exact hd ha hv
      | true => exact h (by simpa [ha] using hv)

theorem midway_tintChanged {color : Value} {pinned : Bool} {before rest} {c : Command}
    (h : (i.tintChanged color pinned).steps = before ++ (j, .send c) :: rest) : Flushed j := by
  have hp : (j, Request.send c) ∈ (i.tintChanged color pinned).steps := by
    rw [h]
    simp
  rw [tintChanged] at hp
  split at hp
  · have hnote := List.mem_singleton.mp hp
    cases hnote
  · dsimp only at hp
    split at hp
    · exact flushed_of_showTint hp
    · exact (List.not_mem_nil hp).elim

theorem candid_restart {rs : List (Request τ)} (h : rs.filterMap Request.command? = []) :
    Candid i (i.restart.asking rs) := by
  obtain ⟨ht, hts, hmeans, -, hmid⟩ := candid_asking (i := i.restart) h
  have hunseen : Flushed i.restart := flushed_of_unseen (by simp [restart])
  exact ⟨⟨ht.tint, ht.pinned⟩, fun p hp => ⟨(hts p hp).tint, (hts p hp).pinned⟩, hmeans,
    fun _ => hunseen, fun before j c rest hsplit _ => hmid before j c rest hsplit (Or.inl hunseen)⟩

section Timed

variable [TimeScale τ]

theorem candid_tick (reading : Except Fault (Reading τ)) : Candid i (i.tick reading) := by
  rw [tick]
  split
  · exact candid_quiet i
  · refine (candid_asking rfl).andThen fun _ => ?_
    dsimp only
    split
    · exact candid_failing _ _
    · exact Candid.of_same (candid_render.andThen fun _ => candid_armNextTick) ⟨rfl, rfl⟩ rfl

theorem candid_settleIn (armed : Bool) : Candid i (i.settleIn armed) := by
  refine candid_render.andThen fun _ => ?_
  split
  · exact candid_asking rfl
  · exact candid_quiet _

theorem candid_settingChanged (key : LooseText) (v : Value) :
    Candid i (i.settingChanged key v) := by
  rw [settingChanged]
  split
  · exact candid_failing i _
  · exact candid_asking rfl
  · rename_i s _
    refine Candid.of_same (j := { i with settings := s }) ?_ ⟨rfl, rfl⟩ rfl
    refine (candid_asking rfl).andThen fun _ => ?_
    split
    · exact candid_quiet _
    · refine Candid.andThen ?_ fun _ => candid_asking rfl
      split
      · exact candid_restart rfl
      · exact candid_quiet _

end Timed

end TrafficIndicator.Indicator
