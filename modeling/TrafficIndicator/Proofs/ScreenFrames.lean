import TrafficIndicator.Proofs.Commands
import TrafficIndicator.Proofs.Detached
import TrafficIndicator.Proofs.ScreenCourse
import TrafficIndicator.Proofs.ScreenSafety
import TrafficIndicator.Proofs.TerminalLine
import TrafficIndicator.Proofs.ValueEquality

/-!
A terminal keeps what it was told in its own fields and draws from them. Where nothing halts,
each field that the indicator remembers is the terminal's, and what was drawn last was drawn
after the last of them was told. What a terminal was told before the indicator forgot it shows
only where nothing has been said since.
-/
namespace TrafficIndicator

structure Terminal.Shows (t : Terminal) (frames : List LooseText) (ρ : Rendered) : Prop where
  fields : ∀ f c, ρ.command? f = some c → t.take c = t
  drawn : ∀ f c, ρ.command? f = some c →
    ∃ frame, t.frame = .ok frame ∧ frames.getLast? = some frame

namespace Terminal

variable {t : Terminal} {frames : List LooseText} {ρ : Rendered}

theorem shows_empty (t : Terminal) (frames : List LooseText) : t.Shows frames {} := by
  refine ⟨fun f c h => ?_, fun f c h => ?_⟩ <;>
    (rw [Rendered.command?_empty] at h; cases h)

theorem take_take (t : Terminal) (c : Command) : (t.take c).take c = t.take c := by
  cases c <;> rfl

theorem take_comm (t : Terminal) {c d : Command} (h : c.field ≠ d.field) :
    (t.take c).take d = (t.take d).take c := by
  cases c <;> cases d <;> first | rfl | exact absurd rfl h

theorem field_of_command? {f : Field} {c : Command} (h : ρ.command? f = some c) : c.field = f := by
  cases f with
  | tint =>
    rw [Rendered.command?] at h
    split at h
    · cases h
    · cases h
      rfl
  | text | icon | visible =>
    obtain ⟨a, -, rfl⟩ := Option.map_eq_some_iff.mp h
    rfl

theorem Shows.take (h : t.Shows frames ρ) {c : Command} (hc : ρ.Lacks c) {frame : LooseText}
    (hf : (t.take c).frame = .ok frame) : (t.take c).Shows (frames ++ [frame]) (ρ.put c) := by
  refine ⟨fun f d hd => ?_, fun _ _ _ => ⟨frame, hf, List.getLast?_concat⟩⟩
  rw [Rendered.command?_put ρ hc.tinted] at hd
  split at hd
  · cases hd
    exact t.take_take c
  · rename_i hne
    rw [t.take_comm, h.fields f d hd]
    rw [field_of_command? hd]
    exact hne

end Terminal

namespace Screen

/-- If the screen is a terminal, it shows what is remembered. -/
def Shows (s : Screen) (ρ : Rendered) : Prop := ∀ t, s.terminal = some t → t.Shows s.frames ρ

variable {s s' : Screen} {ρ ρ' : Rendered} {cs : List Command}

theorem shows_empty (s : Screen) : s.Shows {} := fun t _ => t.shows_empty _

theorem Shows.take (h : s.Shows ρ) {c : Command} (hc : ρ.Lacks c) (hd : (s.take c).2 = none) :
    (s.take c).1.Shows (ρ.put c) := by
  intro t' ht'
  rw [terminal_take] at ht'
  obtain ⟨t, ht, rfl⟩ := Option.map_eq_some_iff.mp ht'
  obtain ⟨frame, hframe, hframes⟩ := drawn_take ht hd
  rw [hframes]
  exact (h t ht).take hc hframe

theorem Shows.drawn (he : ρ.Emitted cs ρ') (hd : s.Drawn cs s') (h : s.Shows ρ) : s'.Shows ρ' := by
  induction he generalizing s with
  | nil =>
    cases hd
    exact h
  | cons hc he ih =>
    cases hd with
    | cons hn hd => exact ih hd (h.take hc hn)

end Screen

namespace Panel

open Loop Indicator

variable {τ : Type} [TimeScale τ]

def Labelled (ρ : Rendered) : Prop :=
  ρ.visible = some true → (∃ l, ρ.text = some l ∧ l.OfRate) ∧ ∃ d, ρ.icon = some d

omit [TimeScale τ] in
theorem labelled_of_current {i : Indicator τ} (h : Current i) : Labelled i.rendered := by
  intro hv
  have hshow : i.shouldShow = true := Option.some.inj (h.visible.symm.trans hv)
  obtain ⟨l, hl, ht⟩ := h.text hshow
  exact ⟨⟨l, ht, _, _, hl⟩, _, h.icon hshow⟩

structure Mirrored (l : Running τ) : Prop where
  shows : l.host.owner.screen.Shows l.host.owner.indicator.rendered
  labelled : Labelled l.host.owner.indicator.rendered

omit [TimeScale τ] in
theorem labelled_of_silent {i : Indicator τ} {r : Reaction τ} (hs : Silent i r)
    (h : Labelled i.rendered) : Labelled r.state.rendered := by
  rw [hs.rendered]
  split
  · exact nofun
  · exact h

theorem Stimulus.labelled {s : Stimulus τ} {i : Indicator τ} (hfit : s.Fits i)
    (hf : (s.reaction i).fault = none) (h : Labelled i.rendered) :
    Labelled (s.reaction i).state.rendered := by
  cases ha : i.attached with
  | false =>
    rw [Stimulus.rendered_of_detached hfit ha]
    exact h
  | true =>
    cases s with
    | join => exact labelled_of_silent silent_join h
    | settleIn armed =>
      obtain ⟨hr, hstate, -⟩ := settleIn_spec hf
      rw [Stimulus.reaction, hstate]
      exact labelled_of_current (render_current hr)
    | deliver d =>
      cases d with
      | setting key v => exact labelled_of_silent (silent_settingChanged key v) h
      | connection b => exact labelled_of_current ((connectionChanged_spec hf).2.2 ha)
      | tint color pinned =>
        obtain ⟨-, p, c, c', hstate⟩ := tintChanged_spec (i := i) color pinned
        rw [Stimulus.reaction, receive, hstate]
        exact h
      | lock b => exact labelled_of_current ((lockChanged_spec hf).2.2 ha)
    | tick reading =>
      obtain ⟨rates, sampler, -, hr, hstate, -⟩ := tick_of_attached ha hf
      rw [Stimulus.reaction, hstate]
      exact labelled_of_current (render_current hr)
    | refresh =>
      obtain ⟨hr, hstate, -⟩ := refresh_of_attached ha hf
      rw [Stimulus.reaction, hstate]
      exact labelled_of_current (render_current hr)
    | leave => exact labelled_of_silent silent_leave h

theorem reacting_mirrored : Reacting (Mirrored (τ := τ)) fun _ _ => True where
  reacts setup s l hfit h := by
    cases hr : react setup s.reaction l with
    | error e m => trivial
    | ok u m =>
      have hreact := react_ok hr
      have hdrawn := react_drawn hr
      refine ⟨?_, ?_⟩
      · rw [hreact.state]
        rcases s.paced_or_silent l.host.owner.indicator with hp | hs
        · exact h.shows.drawn (emitted_of_edged hp.edged) hdrawn
        · rw [hs.commands] at hdrawn
          generalize m.host.owner.screen = screen at hdrawn ⊢
          cases hdrawn
          rw [hs.rendered]
          split
          · exact Screen.shows_empty _
          · exact h.shows
      · rw [hreact.state]
        exact Stimulus.labelled hfit hreact.faultless h.labelled
  around l l' hi hs h := by
    obtain ⟨hshows, hlabelled⟩ := h
    rw [← hi] at hshows hlabelled
    rw [← hs] at hshows
    exact ⟨hshows, hlabelled⟩
  halts _ _ _ := trivial

theorem Displayed.mirrored {l : Running τ} (h : Displayed l) : Mirrored l := by
  induction h with
  | fresh hi =>
    refine ⟨?_, ?_⟩
    · rw [hi]
      exact Screen.shows_empty _
    · rw [hi]
      exact nofun
  | operation setup op h hop ih => exact (reacting_mirrored.operation setup op).keeps _ _ _ hop ih
  | fired setup e h he ih => exact (reacting_mirrored.fire setup e).keeps _ _ _ he ih
  | around h hi hs ih => exact reacting_mirrored.around _ _ hi hs ih

/-- Between operations of runs in which nothing halts, a terminal shows what the indicator
remembers. Told last to hide, it shows nothing. Told last to be seen, it shows the icon, the
value and the unit that were rendered, with one blank between them. They are written as the
coloring writes them in the color that the rendered tint names, and as they are if it knows no
such color; where no tint was sent since the indicator last forgot, some tint may be left. -/
theorem terminal_shows_rendered {l : Running τ} (h : Displayed l) {t : Terminal}
    (ht : l.host.owner.screen.terminal = some t)
    {given : LooseText → Option (LooseText → LooseText)} (hg : t.coloring.Gives given) :
    let ρ := l.host.owner.indicator.rendered
    let shown := l.host.owner.screen.frames.getLast?
    let frame (body : LooseText) := LooseText.chars Terminal.home ++ body ++ Terminal.clear
    (ρ.visible = some false → shown = some (frame "")) ∧
      (ρ.visible = some true → ∃ label icon, ρ.text = some label ∧ ρ.icon = some icon ∧
        let body := LooseText.chars icon.glyph ++ " " ++ label.value ++ " " ++ label.unit
        (∀ name, ρ.tint = .text name →
          shown = some (frame ((given name).elim body (· body)))) ∧
        (ρ.tint = .null → ∃ tint painted, t.coloring.tinted tint body = .ok painted ∧
          shown = some (frame painted))) := by
  intro ρ shown frame
  have hmirrored := h.mirrored
  have hshows := hmirrored.shows t ht
  refine ⟨fun hv => ?_, fun hv => ?_⟩
  · have hc : ρ.command? .visible = some (.visible false) := congrArg (Option.map _) hv
    have hhidden : t.visible = false := by
      rw [← hshows.fields _ _ hc]
      rfl
    obtain ⟨drawn, hframe, hlast⟩ := hshows.drawn _ _ hc
    rw [Terminal.frame_of_hidden hhidden] at hframe
    cases hframe
    exact hlast
  · obtain ⟨⟨label, htext, hlabel⟩, icon, hicon⟩ := hmirrored.labelled hv
    have hcv : ρ.command? .visible = some (.visible true) := congrArg (Option.map _) hv
    have hct : ρ.command? .text = some (.text label) := congrArg (Option.map _) htext
    have hci : ρ.command? .icon = some (.icon icon) := congrArg (Option.map _) hicon
    have hvisible : t.visible = true := by
      rw [← hshows.fields _ _ hcv]
      rfl
    have hvalues : t.value = label.value ∧ t.unit = label.unit := by
      rw [← hshows.fields _ _ hct]
      exact ⟨rfl, rfl⟩
    have hglyph : t.icon = icon := by
      rw [← hshows.fields _ _ hci]
      rfl
    obtain ⟨hline, hbody⟩ := Terminal.line_of_shown hlabel hvisible hvalues
    rw [hglyph] at hline hbody
    obtain ⟨drawn, hframe, hlast⟩ := hshows.drawn _ _ hcv
    obtain ⟨painted, hpainted, rfl⟩ := Terminal.painted_of_frame hframe
    rw [hline] at hpainted
    refine ⟨label, icon, htext, hicon, fun name hname => ?_, fun _ => ⟨_, painted, hpainted, hlast⟩⟩
    have htint : t.tint = .text name := by
      have hctint : ρ.command? .tint = some (.tint (.text name)) := by
        rw [Rendered.command?, hname]
      rw [← hshows.fields _ _ hctint]
      rfl
    rw [htint, Coloring.tinted_text hbody] at hpainted
    rw [hg.painted hbody hpainted] at hlast
    exact hlast

def cyanOnly : Coloring
  | .text (.chars "cyan"), text => .ok ("\x1b[38;5;6m" ++ text ++ "\x1b[0m")
  | _, text => .ok text

/-- An idle indicator on a terminal, in cyan. -/
theorem idle_line_in_cyan :
    ∃ l : Running Rat, Displayed l ∧ l.host.owner.indicator.rendered.visible = some true ∧
      l.host.owner.screen.frames.getLast? =
        some (.chars "\x1b[H\x1b[38;5;6m⇅ 0 KB/s\x1b[0m\x1b[J") := by
  let l₀ : Running Rat := { made { enabled := true } {} with
    host.owner.screen.terminal := some { coloring := cyanOnly } }
  let go (l : Running Rat) (op : Operation) := (Session.runThrough (op.act secluded) l).1
  let l₁ := go l₀ .attach
  let l₂ := go l₁ (.deliver (.tint (.text "cyan") false))
  have hl₁ : Operation.attach.act secluded l₀ = .ok () l₁ :=
    Session.runThrough_unit (by decide +kernel)
  have hl₂ : (Operation.deliver (.tint (.text "cyan") false)).act secluded l₁ = .ok () l₂ :=
    Session.runThrough_unit (by decide +kernel)
  have h₂ : Displayed l₂ :=
    (Displayed.operation secluded .attach (.fresh rfl) hl₁).operation _ _ hl₂
  have hkeeps (op : Operation) := ((lasting_coloring (some cyanOnly)).operation secluded op).keeps
  have hkept := hkeeps _ _ _ _ hl₂ (hkeeps _ _ _ _ hl₁ rfl)
  obtain ⟨t, ht, hcyan⟩ := Option.map_eq_some_iff.mp hkept
  have hgives : t.coloring.Gives fun name =>
      if name = "cyan" then some fun text => "\x1b[38;5;6m" ++ text ++ "\x1b[0m" else none := by
    rw [hcyan]
    refine ⟨fun name paint text painted hname _ hp => ?_, fun name text painted hname _ hp => ?_⟩
    · split at hname
      · subst ‹name = _›
        cases hname
        exact (Except.ok.inj hp).symm
      · cases hname
    · split at hname
      · cases hname
      · rename_i hne
        rw [cyanOnly] at hp
        · exact (Except.ok.inj hp).symm
        · rintro ⟨⟩
          exact hne rfl
  obtain ⟨-, hshown⟩ := terminal_shows_rendered h₂ ht hgives
  have hv : l₂.host.owner.indicator.rendered.visible = some true := by decide +kernel
  obtain ⟨label, icon, hlabel, hicon, hcolored, -⟩ := hshown hv
  have htext : l₂.host.owner.indicator.rendered.text = some ⟨"0", "KB/s"⟩ := by decide +kernel
  have hidle : l₂.host.owner.indicator.rendered.icon = some .idle := by decide +kernel
  have htint : (Value.text "cyan").equal l₂.host.owner.indicator.rendered.tint = true := by
    decide +kernel
  have hline := hcolored _ (Value.alike_text.mp (Value.equal_iff.mp htint).2)
  rw [Option.some.inj (hlabel.symm.trans htext), Option.some.inj (hicon.symm.trans hidle)] at hline
  refine ⟨l₂, h₂, hv, hline.trans (congrArg some ?_)⟩
  decide +kernel

end Panel

end TrafficIndicator
