import TrafficIndicator.Proofs.HeldPolls
import TrafficIndicator.Proofs.TerminalLine
import TrafficIndicator.Proofs.TintHistory
import TrafficIndicator.Session

/-!
However the program comes to its end, from a last turn, an interruption or a failure anywhere in
an attachment or a turn, its clean-up cannot fail. It leaves a detached indicator and nothing in
the queue. Where the coloring keeps text plain, what is drawn in between is plain, so that the
cursor is shown again and the farewell is said at one place of what is written, its end.
-/
namespace TrafficIndicator

namespace Session

def points (frames : List LooseText) : List Nat := (frames.map LooseText.codePoints).flatten

end Session

/-- What the terminal has to draw is plain, as it writes it in any color, and what it drew. -/
structure Screen.Plain (s : Screen) : Prop where
  colors : ∀ t, s.terminal = some t → t.coloring.Plain
  values : ∀ t, s.terminal = some t →
    Text.Plain t.value.codePoints ∧ Text.Plain t.unit.codePoints
  frames : ∀ f ∈ s.frames, Text.Plain f.codePoints

theorem Screen.Plain.take {s : Screen} (h : s.Plain) {c : Command}
    (hc : ∀ label, c = .text label → label.OfRate) : (s.take c).1.Plain := by
  have hcolors : ∀ t, (s.take c).1.terminal = some t → t.coloring.Plain := by
    intro t ht
    rw [terminal_take] at ht
    obtain ⟨t₀, ht₀, rfl⟩ := Option.map_eq_some_iff.mp ht
    rw [t₀.coloring_take]
    exact h.colors t₀ ht₀
  have hvalues : ∀ t, (s.take c).1.terminal = some t →
      Text.Plain t.value.codePoints ∧ Text.Plain t.unit.codePoints := by
    intro t ht
    rw [terminal_take] at ht
    obtain ⟨t₀, ht₀, rfl⟩ := Option.map_eq_some_iff.mp ht
    cases c with
    | text label => exact ⟨(hc label rfl).plain_value, (hc label rfl).plain_unit⟩
    | icon | tint | visible => exact h.values t₀ ht₀
  refine ⟨hcolors, hvalues, fun f hmem => ?_⟩
  rcases mem_frames_take hmem with hmem | ⟨t, ht, hframe⟩
  · exact h.frames f hmem
  · obtain ⟨hv, hu⟩ := hvalues t ht
    exact Terminal.plain_frame (hcolors t ht) hv hu hframe

namespace Panel

open Loop Indicator

variable {τ : Type} [TimeScale τ]

structure Unmoved (l l' : Running τ) : Prop where
  queue : l'.queue = l.queue
  slots : l'.host.slots = l.host.slots
  watches : l'.host.watches = l.host.watches
  owner : l'.host.owner = l.host.owner

/-- An activity that leaves them alone, however it ends. It may halt, stop the loop, move the
clock and change the world. -/
def Aloof (x : Act τ Unit) : Prop := ∀ l, Unmoved l (after x l)

variable {setup : Setup τ} {l : Running τ}

def opened (s : Session.Setting τ) (p : Application.Plan) : Running τ :=
  let l := Application.start s.machine (p.timing s.seconds) p s.world s.start
  { l with host := { l.host with upcoming := s.upcoming } }

end Panel

end TrafficIndicator
