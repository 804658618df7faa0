import Mathlib.Data.List.Infix
import Mathlib.Data.List.TakeWhile
import TrafficIndicator.Palette
import TrafficIndicator.Proofs.RateLabel

/-!
The numeral and the unit of a label are made of digits, signs, points and letters. A line of
them has no blank at its end, no line feed and no null character, so that it is drawn as it is,
or as a coloring writes it. Under a coloring that keeps text plain, as the palette does, nothing
that is drawn holds a question mark or a line feed, by which a frame is told from what else is
written to a terminal.
-/
namespace TrafficIndicator

namespace Text

/-- Code points none of which is a null character, a line feed or a question mark. -/
def Plain (ps : List Nat) : Prop := ∀ p ∈ ps, p ≠ 0 ∧ p ≠ 10 ∧ p ≠ 63

theorem plain_append {ps qs : List Nat} (hp : Plain ps) (hq : Plain qs) : Plain (ps ++ qs) := by
  intro p hmem
  rcases List.mem_append.mp hmem with h | h
  · exact hp p h
  · exact hq p h

instance (ps : List Nat) : Decidable (Plain ps) :=
  inferInstanceAs (Decidable (∀ p ∈ ps, p ≠ 0 ∧ p ≠ 10 ∧ p ≠ 63))

end Text

namespace Decimal

def Figure (c : Char) : Prop := c.isDigit = true ∨ c = '.' ∨ c = '-'

theorem figure_digits (n : Nat) : ∀ c ∈ digitsOf n, Figure c :=
  fun _ h => Or.inl (Nat.isDigit_of_mem_toDigits (by decide) (by decide) h)

theorem figure_zeros (n : Nat) : ∀ c ∈ List.replicate n '0', Figure c := by
  intro c h
  rw [List.eq_of_mem_replicate h]
  exact Or.inl rfl

theorem figure_withPoint {ds : List Char} (h : ∀ c ∈ ds, Figure c) (places : Nat) :
    ∀ c ∈ withPoint ds places, Figure c := by
  have hall : ∀ c ∈ List.replicate (places + 1 - ds.length) '0' ++ ds, Figure c := by
    intro c hc
    rcases List.mem_append.mp hc with hc | hc
    · exact figure_zeros _ c hc
    · exact h c hc
  intro c hc
  rw [withPoint] at hc
  rcases List.mem_append.mp hc with hc | hc
  · exact hall c (List.mem_of_mem_take hc)
  · rcases List.mem_cons.mp hc with rfl | hc
    · exact Or.inr (Or.inl rfl)
    · exact hall c (List.mem_of_mem_drop hc)

theorem figure_plain (d : Decimal) : ∀ c ∈ d.plain, Figure c := by
  have hd := figure_digits d.coefficient
  have hbody : ∀ c ∈ (if d.exponent < 0 then withPoint (digitsOf d.coefficient) (-d.exponent).toNat
      else if d.coefficient = 0 then digitsOf d.coefficient
      else digitsOf d.coefficient ++ List.replicate d.exponent.toNat '0'), Figure c := by
    split
    · exact figure_withPoint hd _
    · split
      · exact hd
      · intro c hc
        rcases List.mem_append.mp hc with hc | hc
        · exact hd c hc
        · exact figure_zeros _ c hc
  intro c hc
  rw [plain] at hc
  split at hc
  · rcases List.mem_cons.mp hc with rfl | hc
    · exact Or.inr (Or.inr rfl)
    · exact hbody c hc
  · exact hbody c hc

theorem mem_of_mem_trimFraction {cs : List Char} {c : Char} (h : c ∈ trimFraction cs) : c ∈ cs := by
  have hdrop : ∀ d ∈ dropTrailing '0' cs, d ∈ cs := by
    intro d hd
    rw [dropTrailing, List.mem_reverse] at hd
    exact List.mem_reverse.mp ((List.dropWhile_sublist _).mem hd)
  rw [trimFraction] at h
  split at h
  · dsimp only at h
    split at h
    · exact hdrop c (List.mem_of_mem_dropLast h)
    · exact hdrop c h
  · exact h

theorem figure_fixed {d : Decimal} {places : Int} {trimmed : Bool} {cs : List Char}
    (h : d.fixed? places trimmed = some cs) : ∀ c ∈ cs, Figure c := by
  obtain ⟨r, -, rfl⟩ := Option.map_eq_some_iff.mp h
  intro c hc
  split at hc
  · exact figure_plain r c (mem_of_mem_trimFraction hc)
  · exact figure_plain r c hc

theorem plain_of_figures {cs : List Char} (h : ∀ c ∈ cs, Figure c) :
    Text.Plain (cs.map Char.toNat) := by
  intro p hp
  obtain ⟨c, hc, rfl⟩ := List.mem_map.mp hp
  rcases h c hc with hd | rfl | rfl
  · rw [Char.isDigit, Bool.and_eq_true, decide_eq_true_eq, decide_eq_true_eq] at hd
    have hlow : 48 ≤ c.toNat := hd.1
    have hhigh : c.toNat ≤ 57 := hd.2
    omega
  · decide
  · decide

end Decimal

namespace Label

def OfRate (l : Label) : Prop := ∃ rate unit, ofRate rate unit = .ok l

variable {l : Label}

theorem plain_unitName (scale : RateScale) (unit : RateUnit) :
    Text.Plain (LooseText.codePoints (scale.unitName unit)) := by
  cases scale <;> cases unit <;> decide +kernel

theorem unitName_ends (scale : RateScale) (unit : RateUnit) :
    (LooseText.codePoints (scale.unitName unit)).getLast? = some 's'.toNat := by
  cases scale <;> cases unit <;> decide +kernel

theorem OfRate.plain_value (h : l.OfRate) : Text.Plain (LooseText.codePoints l.value) := by
  obtain ⟨rate, unit, h⟩ := h
  obtain ⟨quotient, places, trimmed, numeral, scale, hf, rfl⟩ := ofRate_ok h
  rw [LooseText.codePoints, String.toList_ofList]
  exact Decimal.plain_of_figures (Decimal.figure_fixed hf)

theorem OfRate.plain_unit (h : l.OfRate) : Text.Plain (LooseText.codePoints l.unit) := by
  obtain ⟨rate, unit, h⟩ := h
  obtain ⟨quotient, places, trimmed, numeral, scale, -, rfl⟩ := ofRate_ok h
  exact plain_unitName scale unit

theorem OfRate.unit_ends (h : l.OfRate) :
    (LooseText.codePoints l.unit).getLast? = some 's'.toNat := by
  obtain ⟨rate, unit, h⟩ := h
  obtain ⟨quotient, places, trimmed, numeral, scale, -, rfl⟩ := ofRate_ok h
  exact unitName_ends scale unit

end Label

namespace LooseText

theorem ofPoints_codePoints_append (a b : LooseText) : ofPoints (a ++ b).codePoints = a ++ b := by
  rw [codePoints_append]
  rfl

variable {t : LooseText}

theorem trimEnd_of_last (ht : ofPoints t.codePoints = t)
    (h : ∀ p ∈ t.codePoints.getLast?, Text.isBlankPoint p = false) : t.trimEnd = t := by
  rw [trimEnd, Text.dropWhile_of_head?, List.reverse_reverse, ht]
  rw [List.head?_reverse]
  exact h

theorem upTo_of_plain (ht : ofPoints t.codePoints = t) (h : Text.Plain t.codePoints) :
    t.upTo '\x00' = t := by
  have hall : t.codePoints.takeWhile (· ≠ '\x00'.toNat) = t.codePoints := by
    rw [List.takeWhile_eq_self_iff]
    intro p hp
    exact decide_eq_true (h p hp).1
  rw [upTo, hall, ht]

theorem split_of_plain (ht : ofPoints t.codePoints = t) (h : Text.Plain t.codePoints) :
    t.split '\n' = [t] := by
  have hone : Text.splitWhere (· = '\n'.toNat) t.codePoints = [t.codePoints] :=
    Text.splitWhere_of_not fun p hp => decide_eq_false (h p hp).2.1
  rw [split, hone, List.map_singleton, ht]

end LooseText

structure LooseText.IsLine (t : LooseText) : Prop where
  plain : Text.Plain t.codePoints
  normal : LooseText.ofPoints t.codePoints = t
  nonempty : t.isEmpty = false

/-- A coloring that, where it does not fail, writes a line as is given for the names that it
knows, and leaves it as it is for any other name. -/
structure Coloring.Gives (coloring : Coloring)
    (given : LooseText → Option (LooseText → LooseText)) : Prop where
  known : ∀ name paint text painted, given name = some paint → text.IsLine →
    coloring (.text name) text = .ok painted → painted = paint text
  unknown : ∀ name text painted, given name = none → text.IsLine →
    coloring (.text name) text = .ok painted → painted = text

def Coloring.Plain (coloring : Coloring) : Prop :=
  ∀ tint text painted, text.IsLine → coloring tint text = .ok painted →
    Text.Plain painted.codePoints

namespace Coloring

variable {coloring : Coloring} {given : LooseText → Option (LooseText → LooseText)}

theorem Gives.painted (h : coloring.Gives given) {name text painted : LooseText}
    (ht : text.IsLine) (hp : coloring (.text name) text = .ok painted) :
    painted = (given name).elim text (· text) := by
  cases hname : given name with
  | none => exact h.unknown name text painted hname ht hp
  | some paint => exact h.known name paint text painted hname ht hp

theorem tinted_empty (coloring : Coloring) (tint : Value) : coloring.tinted tint "" = .ok "" := by
  cases tint <;> rfl

theorem tinted_text {text : LooseText} (ht : text.IsLine) (name : LooseText) :
    coloring.tinted (.text name) text = coloring (.text name) text := by
  rw [tinted, ht.nonempty]
  · rfl
  · exact nofun

theorem Plain.tinted (h : coloring.Plain) {tint : Value} {text painted : LooseText}
    (ht : Text.Plain text.codePoints) (hn : LooseText.ofPoints text.codePoints = text)
    (hp : coloring.tinted tint text = .ok painted) : Text.Plain painted.codePoints := by
  unfold Coloring.tinted at hp
  split at hp
  · cases hp
    exact ht
  · split at hp
    · cases hp
      exact ht
    · rename_i hne
      exact h _ text painted ⟨ht, hn, by simpa using hne⟩ hp

end Coloring

namespace Terminal

def body (icon : Direction) (l : Label) : LooseText :=
  LooseText.chars icon.glyph ++ " " ++ l.value ++ " " ++ l.unit

theorem plain_glyph (icon : Direction) : Text.Plain (LooseText.codePoints icon.glyph) := by
  cases icon <;> decide +kernel

variable {t : Terminal} {frame : LooseText}

theorem frame_of_hidden (h : t.visible = false) :
    t.frame = .ok (LooseText.chars home ++ "" ++ clear) := by
  have hline : t.line = "" := by rw [line, h]; rfl
  rw [Terminal.frame, hline, Coloring.tinted_empty]
  rfl

/-- The line of plain values is plain, and nothing is left to bring into normal form. -/
theorem plain_line (hv : Text.Plain t.value.codePoints) (hu : Text.Plain t.unit.codePoints) :
    Text.Plain t.line.codePoints ∧ LooseText.ofPoints t.line.codePoints = t.line := by
  rw [line]
  split
  · have hblank : Text.Plain (LooseText.codePoints " ") := by decide +kernel
    have hwhole : Text.Plain
        (LooseText.chars t.icon.glyph ++ " " ++ t.value ++ " " ++ t.unit).codePoints := by
      simp only [LooseText.codePoints_append]
      exact Text.plain_append (Text.plain_append (Text.plain_append
        (Text.plain_append (plain_glyph _) hblank) hv) hblank) hu
    rw [LooseText.trimEnd, LooseText.codePoints_ofPoints]
    refine ⟨fun p hp => hwhole p ?_, rfl⟩
    exact List.mem_reverse.mp ((List.dropWhile_sublist _).mem (List.mem_reverse.mp hp))
  · exact ⟨by decide +kernel, rfl⟩

theorem painted_of_frame {drawn : LooseText} (h : t.frame = .ok drawn) :
    ∃ painted, t.coloring.tinted t.tint t.line = .ok painted ∧
      LooseText.chars home ++ painted ++ clear = drawn := by
  rw [Terminal.frame] at h
  cases hp : t.coloring.tinted t.tint t.line with
  | ok painted =>
    rw [hp] at h
    exact ⟨painted, rfl, Except.ok.inj h⟩
  | error f =>
    rw [hp] at h
    cases h

theorem line_of_shown {l : Label} (hl : l.OfRate) (hv : t.visible = true)
    (ht : t.value = l.value ∧ t.unit = l.unit) :
    t.line = body t.icon l ∧ (body t.icon l).IsLine := by
  have hnormal : LooseText.ofPoints (body t.icon l).codePoints = body t.icon l :=
    LooseText.ofPoints_codePoints_append _ _
  have hpoints : (body t.icon l).codePoints =
      LooseText.codePoints t.icon.glyph ++ [32] ++ LooseText.codePoints l.value ++ [32] ++
        LooseText.codePoints l.unit := by
    simp only [body, LooseText.codePoints_append]
    rfl
  have hline : t.line = body t.icon l := by
    rw [line, if_pos hv, ht.1, ht.2]
    have hlast : (body t.icon l).codePoints.getLast? = some 's'.toNat := by
      rw [hpoints, List.getLast?_append, hl.unit_ends]
      rfl
    refine LooseText.trimEnd_of_last hnormal fun p hp => ?_
    change p ∈ (body t.icon l).codePoints.getLast? at hp
    rw [hlast] at hp
    cases hp
    decide
  refine ⟨hline, ?_, hnormal, ?_⟩
  · have hvalues : Text.Plain t.value.codePoints ∧ Text.Plain t.unit.codePoints := by
      rw [ht.1, ht.2]
      exact ⟨hl.plain_value, hl.plain_unit⟩
    rw [← hline]
    exact (plain_line hvalues.1 hvalues.2).1
  · rw [LooseText.isEmpty, hpoints]
    simp

theorem plain_frame (hc : t.coloring.Plain) (hv : Text.Plain t.value.codePoints)
    (hu : Text.Plain t.unit.codePoints) (h : t.frame = .ok frame) :
    Text.Plain frame.codePoints := by
  obtain ⟨hline, hnormal⟩ := plain_line hv hu
  have hends : Text.Plain (LooseText.codePoints home) ∧
      Text.Plain (LooseText.codePoints clear) := by
    decide +kernel
  obtain ⟨painted, hpainted, rfl⟩ := painted_of_frame h
  rw [LooseText.codePoints_append, LooseText.codePoints_append]
  exact Text.plain_append (Text.plain_append hends.1 (hc.tinted hline hnormal hpainted)) hends.2

end Terminal

namespace Palette

/-- How the palette writes a line in the color of a name. -/
def given (name : LooseText) : Option (LooseText → LooseText) :=
  (code? (name.upTo '\x00')).map inColor

theorem paint_line {name text painted : LooseText} (ht : text.IsLine)
    (h : paint name text = .ok painted) : painted = (given name).elim text (· text) := by
  rw [paint] at h
  split at h
  · cases h
  · rw [LooseText.upTo_of_plain ht.normal ht.plain] at h
    rw [given]
    cases hcode : code? (name.upTo '\x00') with
    | none =>
      rw [hcode] at h
      cases h
      rfl
    | some n =>
      rw [hcode] at h
      have hone : linesInColor n (text.split '\n') = inColor n text := by
        rw [LooseText.split_of_plain ht.normal ht.plain]
        exact if_neg (by simp [ht.nonempty])
      exact (Except.ok.inj h).symm.trans hone

theorem gives : coloring.Gives given where
  known name paint text painted hname ht h := by
    rw [paint_line ht h, hname]
    rfl
  unknown name text painted hname ht h := by
    rw [paint_line ht h, hname]
    rfl

theorem plain_code {name : LooseText} {n : Nat} (h : code? name = some n) :
    Text.Plain (LooseText.codePoints (Terminal.escape ("38;5;" ++ toString n ++ "m"))) := by
  have hall : ∀ entry ∈ codes,
      Text.Plain (LooseText.codePoints (Terminal.escape ("38;5;" ++ toString entry.2 ++ "m"))) := by
    decide +kernel
  cases name with
  | chars s =>
    obtain ⟨before, after, hcodes, -⟩ := List.lookup_eq_some_iff.mp h
    exact hall (s, n) (by rw [hcodes]; simp)
  | points ps => cases h

theorem plain : coloring.Plain := by
  intro tint text painted ht h
  cases tint with
  | text name =>
    rw [paint_line ht h, given]
    cases hcode : code? (name.upTo '\x00') with
    | none => exact ht.plain
    | some n =>
      have hreset : Text.Plain (LooseText.codePoints (Terminal.escape "0m")) := by decide +kernel
      change Text.Plain (inColor n text).codePoints
      rw [inColor, LooseText.codePoints_append, LooseText.codePoints_append]
      exact Text.plain_append (Text.plain_append (plain_code hcode) ht.plain) hreset
  | _ =>
    cases h
    exact ht.plain

end Palette

end TrafficIndicator
