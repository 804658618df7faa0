import Mathlib.Data.List.Forall2
import TrafficIndicator.Log.Level
import TrafficIndicator.Proofs.IntegerNumerals

/-!
Every text has one meaning as a threshold: the number of the level that it names, the number that
its decimal digits denote, or the default. A text is taken for a number as soon as it is made of
figures, though, and among the figures are some that have no place in a numeral; a numeral may
also have too many digits. These texts are refused, and no others.
-/
namespace TrafficIndicator

namespace Text

variable {cs : List Char} {ds : List Nat}

abbrev Digits (cs : List Char) (ds : List Nat) : Prop :=
  List.Forall₂ (fun c d => decimalValue? c = some d) cs ds

theorem Digits.grouped (h : Digits cs ds) (hne : cs ≠ []) : Grouped cs ds := by
  induction h with
  | nil => exact absurd rfl hne
  | @cons c d cs ds hc hrest ih =>
    cases hrest with
    | nil => exact .last hc
    | cons => exact .next hc (ih (List.cons_ne_nil _ _))

theorem Digits.decimal (h : Digits cs ds) : ∀ c ∈ cs, decimalValue? c ≠ none := by
  induction h with
  | nil => simp
  | cons hc _ ih => exact List.forall_mem_cons.mpr ⟨by simp [hc], ih⟩

theorem Digits.not_exists (h : Digits cs ds) : ¬∃ c ∈ cs, decimalValue? c = none := by
  rintro ⟨c, hc, hnone⟩
  exact h.decimal c hc hnone

theorem Digits.unique {es : List Nat} (h : Digits cs ds) (h' : Digits cs es) : ds = es := by
  induction h generalizing es with
  | nil =>
    cases h'
    rfl
  | cons hc _ ih =>
    cases h' with
    | cons hc' hrest' =>
      rw [hc] at hc'
      cases hc'
      rw [ih hrest']

theorem exists_digits (h : ∀ c ∈ cs, decimalValue? c ≠ none) : ∃ ds, Digits cs ds := by
  induction cs with
  | nil => exact ⟨[], .nil⟩
  | cons c cs ih =>
    obtain ⟨hc, hcs⟩ := List.forall_mem_cons.mp h
    obtain ⟨d, hd⟩ := Option.ne_none_iff_exists'.mp hc
    obtain ⟨ds, hds⟩ := ih hcs
    exact ⟨d :: ds, .cons hd hds⟩

theorem isFigure_of_decimal {c : Char} (h : decimalValue? c ≠ none) : isFigure c = true := by
  rw [isFigure, Option.isSome_iff_ne_none.mpr h, Bool.true_or]

theorem decimal_of_figure {c : Char} (hf : isFigure c = true)
    (h : c = '_' ∨ c = '+' ∨ c = '-' ∨ decimalValue? c ≠ none) : decimalValue? c ≠ none := by
  rcases h with rfl | rfl | rfl | h
  · exact absurd hf (by decide)
  · exact absurd hf (by decide)
  · exact absurd hf (by decide)
  · exact h

/-- Below the other scripts the only decimal digits are the ten of ASCII. -/
theorem decimalValue?_letter : ∀ k < 128, 58 ≤ k → decimalValue? (Char.ofNat k) = none := by
  decide +kernel

end Text

namespace LogLevel

open Text

variable {default : Int} {body : List Char}

inductive Means (default : Int) : List Char → Int → Prop where
  | level {body : List Char} {name : String} {n : Int} (hn : (name, n) ∈ named)
      (hu : body.map upper = name.toList) : Means default body n
  | number {body : List Char} {ds : List Nat} (hne : body ≠ []) (hd : Digits body ds) :
      Means default body (ofDigits ds)
  | other {body : List Char} (hn : ∀ e ∈ named, body.map upper ≠ e.1.toList)
      (hd : body = [] ∨ ∃ c ∈ body, decimalValue? c = none) : Means default body default

theorem lookup_named : ∀ e ∈ named, named.lookup e.1 = some e.2 := by
  decide +kernel

theorem lookup_eq_some_iff {name : String} {n : Int} :
    named.lookup name = some n ↔ (name, n) ∈ named := by
  constructor
  · intro h
    obtain ⟨before, after, hnamed, -⟩ := List.lookup_eq_some_iff.mp h
    rw [hnamed]
    simp
  · exact fun h => lookup_named _ h

theorem capital_of_named : ∀ e ∈ named, e.1.toList ≠ [] ∧
    (e.1.toList.all fun c => 65 ≤ c.toNat && c.toNat ≤ 90) = true := by
  decide +kernel

theorem decimalValue?_of_upper {c : Char} (h : 65 ≤ (upper c).toNat) (h' : (upper c).toNat ≤ 90) :
    decimalValue? c = none := by
  by_cases hi : c = 'ı'
  · rw [hi]
    decide
  by_cases hs : c = 'ſ'
  · rw [hs]
    decide
  rw [upper, if_neg hi, if_neg hs] at h h'
  have hrange : 58 ≤ c.toNat ∧ c.toNat < 128 := by
    by_cases hsmall : 'a'.val ≤ c.val ∧ c.val ≤ 'z'.val
    · rw [UInt32.le_iff_toNat_le, UInt32.le_iff_toNat_le] at hsmall
      change 97 ≤ c.toNat ∧ c.toNat ≤ 122 at hsmall
      omega
    · have hsame : c.toUpper = c := dif_neg hsmall
      rw [hsame] at h h'
      omega
  have hletter := decimalValue?_letter c.toNat hrange.2 hrange.1
  rwa [Char.ofNat_toNat] at hletter

theorem not_digits_of_named {name : String} {n : Int} (hn : (name, n) ∈ named)
    (hu : body.map upper = name.toList) : ∃ c ∈ body, decimalValue? c = none := by
  obtain ⟨hne, hcapital⟩ := capital_of_named _ hn
  rw [← hu] at hne hcapital
  obtain ⟨c, hc⟩ := List.exists_mem_of_ne_nil body fun h => hne (by rw [h, List.map_nil])
  have hletter := List.all_eq_true.mp hcapital _ (List.mem_map_of_mem hc)
  rw [Bool.and_eq_true, decide_eq_true_eq, decide_eq_true_eq] at hletter
  exact ⟨c, hc, decimalValue?_of_upper hletter.1 hletter.2⟩

theorem Means.unique {n m : Int} (h : Means default body n) (h' : Means default body m) :
    n = m := by
  cases h with
  | level hn hu =>
    cases h' with
    | level hn' hu' =>
      rw [← String.toList_inj.mp (hu.symm.trans hu')] at hn'
      rw [← lookup_eq_some_iff] at hn hn'
      rw [hn] at hn'
      exact Option.some.inj hn'
    | number hne hd => exact absurd (not_digits_of_named hn hu) hd.not_exists
    | other hno _ => exact absurd hu (hno _ hn)
  | number hne hd =>
    cases h' with
    | level hn hu => exact absurd (not_digits_of_named hn hu) hd.not_exists
    | number _ hd' => rw [hd.unique hd']
    | other _ hnone => exact absurd hnone (not_or.mpr ⟨hne, hd.not_exists⟩)
  | other hno hnone =>
    cases h' with
    | level hn hu => exact absurd hu (hno _ hn)
    | number hne hd => exact absurd hnone (not_or.mpr ⟨hne, hd.not_exists⟩)
    | other _ _ => rfl

theorem exists_means (default : Int) (body : List Char) : ∃ n, Means default body n := by
  by_cases hdecimal : body ≠ [] ∧ ∀ c ∈ body, decimalValue? c ≠ none
  · obtain ⟨ds, hd⟩ := exists_digits hdecimal.2
    exact ⟨_, .number hdecimal.1 hd⟩
  by_cases hnamed : ∃ e ∈ named, body.map upper = e.1.toList
  · obtain ⟨e, he, hu⟩ := hnamed
    exact ⟨_, .level he hu⟩
  refine ⟨default, .other (fun e he hu => hnamed ⟨e, he, hu⟩) ?_⟩
  by_contra hnone
  push Not at hnone
  exact hdecimal hnone

structure Unread (body : List Char) : Prop where
  nonempty : body ≠ []
  figures : ∀ c ∈ body, isFigure c = true
  broken : (∃ c ∈ body, decimalValue? c = none) ∨ digitLimit < body.length

theorem readInteger_of_digits {ds : List Nat} (hne : body ≠ []) (hd : Digits body ds) :
    readInteger body =
      if digitLimit < body.length then .error (.numeralTooLong body.length)
      else .ok (ofDigits ds) := by
  have hbare := Bare.mk .none (hd.grouped hne)
  rw [← hd.length_eq] at hbare
  exact readInteger_of_bare hbare

theorem readInteger_of_unread (htrim : trimWhere isPadding body = body) (h : Unread body) :
    ∃ f, readInteger body = .error f ∧ f.Refuses := by
  by_cases hdecimal : ∀ c ∈ body, decimalValue? c ≠ none
  · have hlong : digitLimit < body.length := by
      refine h.broken.resolve_left ?_
      rintro ⟨c, hc, hnone⟩
      exact hdecimal c hc hnone
    obtain ⟨ds, hd⟩ := exists_digits hdecimal
    rw [readInteger_of_digits h.nonempty hd, if_pos hlong]
    exact ⟨_, rfl, .numeralTooLong _⟩
  · cases hread : readInteger body with
    | error f => exact ⟨f, rfl, refuses_of_readInteger hread⟩
    | ok n =>
      -- What is read has digits and signs alone, and no figure is a sign.
      obtain ⟨digits, -, hbare⟩ := bare_of_readInteger hread
      rw [htrim] at hbare
      exact absurd (fun c hc => decimal_of_figure (h.figures c hc) (hbare.characters c hc)) hdecimal

theorem spelled_of_means {n : Int} (h : Means default body n)
    (hnot : ¬(body ≠ [] ∧ ∀ c ∈ body, isFigure c = true)) :
    (named.lookup (String.ofList (body.map upper))).getD default = n := by
  cases h with
  | level hn hu => rw [hu, String.ofList_toList, lookup_named _ hn, Option.getD_some]
  | number hne hd => exact absurd ⟨hne, fun c hc => isFigure_of_decimal (hd.decimal c hc)⟩ hnot
  | other hno _ =>
    cases hl : named.lookup (String.ofList (body.map upper)) with
    | none => rfl
    | some m =>
      have hmem := lookup_eq_some_iff.mp hl
      exact absurd String.toList_ofList.symm (hno _ hmem)

theorem readInteger_of_means {n : Int}
    (hfigures : body ≠ [] ∧ ∀ c ∈ body, isFigure c = true) (hread : ¬Unread body)
    (h : Means default body n) : readInteger body = .ok n := by
  obtain ⟨hne, hfigures⟩ := hfigures
  have hdecimal : ¬∃ c ∈ body, decimalValue? c = none :=
    fun hnone => hread ⟨hne, hfigures, .inl hnone⟩
  cases h with
  | level hn hu => exact absurd (not_digits_of_named hn hu) hdecimal
  | number _ hd =>
    have hshort : ¬digitLimit < body.length := fun hlong => hread ⟨hne, hfigures, .inr hlong⟩
    rw [readInteger_of_digits hne hd, if_neg hshort]
  | other _ hnone => exact absurd hnone (not_or.mpr ⟨hne, hdecimal⟩)

end LogLevel

namespace LooseText

/-- What a text means as a threshold. The blanks around it do not count, and a text with lone
surrogates names nothing. -/
def Means (t : LooseText) (default n : Int) : Prop :=
  match t.chars? with
  | none => n = default
  | some cs => LogLevel.Means default (Text.trim cs) n

def Unread (t : LooseText) : Prop :=
  match t.chars? with
  | none => False
  | some cs => LogLevel.Unread (Text.trim cs)

theorem exists_means (t : LooseText) (default : Int) :
    ∃ n, ∀ m, t.Means default m ↔ m = n := by
  unfold Means
  cases t.chars? with
  | none => exact ⟨default, fun m => Iff.rfl⟩
  | some cs =>
    obtain ⟨n, hn⟩ := LogLevel.exists_means default (Text.trim cs)
    refine ⟨n, fun m => ⟨fun hm => hm.unique hn, ?_⟩⟩
    rintro rfl
    exact hn

end LooseText

namespace LogLevel

open Text

theorem threshold_of_unread {t : LooseText} (h : t.Unread) (default : Int) :
    ∃ f, threshold t default = .error f ∧ f.Refuses := by
  rw [threshold]
  rw [LooseText.Unread] at h
  cases hcs : t.chars? with
  | none =>
    rw [hcs] at h
    exact h.elim
  | some cs =>
    rw [hcs] at h
    dsimp only at h ⊢
    rw [if_pos ⟨h.nonempty, List.all_eq_true.mpr h.figures⟩]
    exact readInteger_of_unread (trimWhere_isPadding_trim cs) h

theorem threshold_of_means {t : LooseText} {default n : Int} (hread : ¬t.Unread)
    (h : t.Means default n) : threshold t default = .ok n := by
  rw [threshold]
  rw [LooseText.Unread] at hread
  rw [LooseText.Means] at h
  cases hcs : t.chars? with
  | none =>
    rw [hcs] at h
    rw [h]
  | some cs =>
    rw [hcs] at h hread
    dsimp only at h hread ⊢
    by_cases hfigures : trim cs ≠ [] ∧ ∀ c ∈ trim cs, isFigure c = true
    · rw [if_pos (by rwa [List.all_eq_true])]
      exact readInteger_of_means hfigures hread h
    · rw [if_neg (by rwa [List.all_eq_true]), spelled_of_means h hfigures]

namespace Request

def Means (default : Int) (n : Int) : Request → Prop
  | .number m => n = m
  | .text t => t.Means default n
  | .absent => n = default

def Unread : Request → Prop
  | .text t => t.Unread
  | _ => False

structure Answered (r : Request) (default : Int) (answer : Except Fault Int) : Prop where
  meaning : ∃ n, ∀ m, r.Means default m ↔ m = n
  read : ¬r.Unread → ∃ n, answer = .ok n ∧ r.Means default n
  refused : r.Unread → ∃ f, answer = .error f ∧ f.Refuses

theorem answered_resolve (r : Request) (default : Int) :
    r.Answered default (r.resolve default) := by
  cases r with
  | number n => exact ⟨⟨n, fun m => Iff.rfl⟩, fun _ => ⟨n, rfl, rfl⟩, False.elim⟩
  | text t =>
    obtain ⟨n, hn⟩ := t.exists_means default
    have hmeans := (hn n).mpr rfl
    exact ⟨⟨n, hn⟩, fun hread => ⟨n, threshold_of_means hread hmeans, hmeans⟩,
      fun hunread => threshold_of_unread hunread default⟩
  | absent =>
    have hread : ¬LooseText.Unread "" := fun h => LogLevel.Unread.nonempty h rfl
    have hmeans : LooseText.Means "" default default := .other (by decide +kernel) (.inl rfl)
    exact ⟨⟨default, fun m => Iff.rfl⟩, fun _ => ⟨default, threshold_of_means hread hmeans, rfl⟩,
      False.elim⟩

end Request

/-- What the threshold is taken from: the environment, unless nothing stands there. -/
def consulted (environment : Option LooseText) (r : Request) : Request :=
  match environment with
  | none => r
  | some t => if t.isEmpty then r else .text t

theorem configure_eq (environment : Option LooseText) (r : Request) :
    configure environment r = (consulted environment r).resolve := by
  cases environment with
  | none => rfl
  | some t =>
    rw [configure, consulted]
    split <;> rfl

/-- A request has one meaning, and this is the answer to it, unless it is a text that is taken
for a number and cannot be read as one; that text is refused. The same holds with the
environment, for the text that is consulted. -/
theorem answered_unless_unread (environment : Option LooseText) (r : Request) (default : Int) :
    r.Answered default (r.resolve default) ∧
      (consulted environment r).Answered (number .warning) (configure environment r) := by
  constructor
  · exact r.answered_resolve default
  · rw [configure_eq]
    exact (consulted environment r).answered_resolve _

/-- The figure of a superscript two counts as a digit and has no place in a numeral. -/
theorem superscript_threshold_refused :
    ¬∀ (r : Request) (default : Int), ∃ n, r.resolve default = .ok n ∧ r.Means default n := by
  intro h
  have htrim : trim "²".toList = ['²'] := by decide +kernel
  have hunread : Request.Unread (.text "²") := by
    change LogLevel.Unread (trim "²".toList)
    rw [htrim]
    exact ⟨nofun, by simp [isFigure, figureRanges], .inl ⟨'²', by simp, by decide +kernel⟩⟩
  obtain ⟨f, hf, -⟩ := (Request.answered_resolve (.text "²") 30).refused hunread
  obtain ⟨n, hn, -⟩ := h (.text "²") 30
  rw [hf] at hn
  cases hn

end LogLevel

end TrafficIndicator
