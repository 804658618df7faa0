import TrafficIndicator.Proofs.CounterTotals
import TrafficIndicator.Proofs.IntegerNumerals

/-!
A table as the system writes it: lines without a colon at its head, then a line for each
interface, with its name behind some spaces, a colon, and columns of decimal numbers that
spaces keep apart. What is read from it are the sums of the first and of the ninth column over
the rows that count, in whatever order the rows stand.
-/
namespace TrafficIndicator

namespace Text

theorem words_cons_blank {c : Char} (hc : isBlank c = true) (cs : List Char) :
    words (c :: cs) = words cs := by
  rw [words, splitWhere, if_pos hc]
  rfl

theorem words_blanks_append {pad : List Char} (h : ∀ c ∈ pad, isBlank c = true)
    (cs : List Char) : words (pad ++ cs) = words cs := by
  induction pad with
  | nil => rfl
  | cons c pad ih =>
    obtain ⟨hc, hpad⟩ := List.forall_mem_cons.mp h
    rw [List.cons_append, words_cons_blank hc, ih hpad]

theorem words_append {w : List Char} (hne : w ≠ []) (hw : ∀ c ∈ w, isBlank c = false)
    {cs : List Char} (hcs : ∀ c ∈ cs.head?, isBlank c = true) :
    words (w ++ cs) = w :: words cs := by
  cases cs with
  | nil =>
    rw [List.append_nil, words, splitWhere_of_not hw]
    simp [hne, words, splitWhere]
  | cons c cs =>
    have hc : isBlank c = true := hcs c rfl
    rw [words_cons_blank hc, words, splitWhere_append_of_not hw hc]
    simp [hne, words]

theorem splitWhere_append {α : Type} {p : α → Bool} {c : α} (hc : p c = true)
    (before behind : List α) :
    splitWhere p (before ++ c :: behind) = splitWhere p before ++ splitWhere p behind := by
  induction before with
  | nil => simp [splitWhere, hc]
  | cons b before ih =>
    rw [List.cons_append, splitWhere, splitWhere, ih]
    split
    · rfl
    · obtain ⟨w, ws, hs⟩ := List.exists_cons_of_ne_nil (splitWhere_ne_nil p before)
      rw [hs]
      rfl

theorem mem_of_mem_splitWhere {α : Type} {p : α → Bool} {cs w : List α}
    (hw : w ∈ splitWhere p cs) {c : α} (hc : c ∈ w) : c ∈ cs := by
  induction cs generalizing w with
  | nil =>
    rw [splitWhere, List.mem_singleton] at hw
    rwa [hw] at hc
  | cons b cs ih =>
    rw [splitWhere] at hw
    split at hw
    · rcases List.mem_cons.mp hw with rfl | hw
      · exact absurd hc List.not_mem_nil
      · exact List.mem_cons_of_mem _ (ih hw hc)
    · obtain ⟨v, vs, hs⟩ := List.exists_cons_of_ne_nil (splitWhere_ne_nil p cs)
      rw [hs] at hw ih
      rcases List.mem_cons.mp hw with rfl | hw
      · rcases List.mem_cons.mp hc with rfl | hc
        · exact List.mem_cons_self
        · exact List.mem_cons_of_mem _ (ih List.mem_cons_self hc)
      · exact List.mem_cons_of_mem _ (ih (List.mem_cons_of_mem _ hw) hc)

/-- What stands before a line feed does not reach beyond it. A carriage return at its end goes
with the line feed. -/
theorem unifyLineEnds_append (cs rest : List Char) :
    ∃ us, unifyLineEnds (cs ++ '\n' :: rest) = us ++ '\n' :: unifyLineEnds rest ∧
      (∀ c ∈ us, c ∈ cs ∨ c = '\n') ∧ ('\r' ∉ cs → us = cs) := by
  fun_induction unifyLineEnds cs with
  | case1 =>
    refine ⟨[], ?_, nofun, fun _ => rfl⟩
    simp [unifyLineEnds]
  | case2 cs ih =>
    obtain ⟨us, hus, hmem, -⟩ := ih
    refine ⟨'\n' :: us, ?_, ?_, fun hr => absurd List.mem_cons_self hr⟩
    · rw [List.cons_append, List.cons_append, unifyLineEnds, hus]
      rfl
    · intro c hc
      rcases List.mem_cons.mp hc with rfl | hc
      · exact Or.inr rfl
      · refine (hmem c hc).imp_left fun h => ?_
        exact List.mem_cons_of_mem _ (List.mem_cons_of_mem _ h)
  | case3 c cs hne ih =>
    obtain ⟨us, hus, hmem, hsame⟩ := ih
    by_cases hlast : c = '\r' ∧ cs = []
    · obtain ⟨rfl, rfl⟩ := hlast
      exact ⟨[], rfl, nofun, fun hr => absurd List.mem_cons_self hr⟩
    · refine ⟨(if c = '\r' then '\n' else c) :: us, ?_, ?_, ?_⟩
      · have hcut : ∀ ds, c = '\r' → cs ++ '\n' :: rest ≠ '\n' :: ds := by
          intro ds hc h
          cases cs with
          | nil => exact hlast ⟨hc, rfl⟩
          | cons d cs =>
            obtain ⟨rfl, -⟩ := List.cons.inj h
            exact hne cs hc rfl
        rw [List.cons_append, unifyLineEnds, hus]
        · rfl
        · exact hcut
      · intro d hd
        rcases List.mem_cons.mp hd with rfl | hd
        · by_cases hc : c = '\r'
          · exact Or.inr (if_pos hc)
          · rw [if_neg hc]
            exact Or.inl List.mem_cons_self
        · exact (hmem d hd).imp_left (List.mem_cons_of_mem _)
      · intro hr
        rw [List.mem_cons, not_or] at hr
        rw [if_neg (Ne.symm hr.1), hsame hr.2]

theorem lines_append (cs rest : List Char) :
    ∃ heads, lines (cs ++ '\n' :: rest) = heads ++ lines rest ∧
      ∀ w ∈ heads, ∀ c ∈ w, c ∈ cs ∨ c = '\n' := by
  obtain ⟨us, hus, hmem, -⟩ := unifyLineEnds_append cs rest
  refine ⟨splitWhere (· = '\n') us, ?_, ?_⟩
  · rw [lines, hus]
    exact splitWhere_append (c := '\n') (decide_eq_true rfl) us _
  · intro w hw c hc
    exact hmem c (mem_of_mem_splitWhere hw hc)

theorem lines_append_of_line {cs : List Char} (hn : '\n' ∉ cs) (hr : '\r' ∉ cs)
    (rest : List Char) : lines (cs ++ '\n' :: rest) = cs :: lines rest := by
  obtain ⟨us, hus, -, hsame⟩ := unifyLineEnds_append cs rest
  have hplain : ∀ c ∈ cs, decide (c = '\n') = false := by
    intro c hc
    refine decide_eq_false ?_
    rintro rfl
    exact hn hc
  rw [lines, hus, hsame hr, splitWhere_append_of_not hplain (decide_eq_true rfl)]
  rfl

open Decimal

theorem isBlank_digitsOf (n : Nat) : ∀ c ∈ digitsOf n, isBlank c = false := by
  obtain ⟨ds, hds, -, hd, -⟩ := digitsOf_figures n
  intro c hc
  rw [hds] at hc
  obtain ⟨d, hm, rfl⟩ := List.mem_map.mp hc
  exact isBlank_digitChar (hd d hm)

theorem readInteger_digitsOf {n : Nat} (h : size n ≤ digitLimit) :
    readInteger (digitsOf n) = .ok n := by
  have hread := readInteger_of_bare (bare_digitsOf .none n)
  rwa [if_neg (Nat.not_lt.mpr h)] at hread

end Text

namespace Counters

open Text Decimal

structure Column where
  gap : Nat
  value : Nat
  deriving DecidableEq, Repr

/-- A row of a table as it is written. Spaces keep its columns apart; before the first one,
behind the colon, there may be none. -/
structure Row where
  indent : Nat
  name : String
  columns : List Column
  nine_le : 9 ≤ columns.length := by decide
  apart : ∀ c ∈ columns.tail, 0 < c.gap := by decide
  size_le : ∀ c ∈ columns, size c.value ≤ digitLimit := by decide
  name_colon : ':' ∉ name.toList := by decide
  name_line : '\n' ∉ name.toList ∧ '\r' ∉ name.toList := by decide
  name_head : name.toList.head?.any isBlank = false := by decide
  name_last : name.toList.getLast?.any isBlank = false := by decide

def Column.text (c : Column) : List Char := List.replicate c.gap ' ' ++ digitsOf c.value

namespace Row

def text (r : Row) : List Char :=
  (List.replicate r.indent ' ' ++ r.name.toList) ++ ':' :: r.columns.flatMap Column.text

def received (r : Row) : Nat :=
  have h := r.nine_le
  r.columns[0].value

def sent (r : Row) : Nat :=
  have h := r.nine_le
  r.columns[8].value

/-- Whether a row counts: it is not that of the loopback interface, it is that of the one
interface that is asked for, if one is named, and it is not excluded. -/
def Counts (f : Filter) (r : Row) : Prop :=
  r.name ≠ "lo" ∧ (∀ one ∈ f.only, one.isEmpty = true ∨ one = .chars r.name) ∧
    .chars r.name ∉ f.excluded

instance (f : Filter) (r : Row) : Decidable (r.Counts f) :=
  inferInstanceAs (Decidable (_ ∧ _ ∧ _))

end Row

theorem isBlank_of_mem_spaces {n : Nat} : ∀ c ∈ List.replicate n ' ', isBlank c = true := by
  intro c hc
  rw [List.eq_of_mem_replicate hc]
  rfl

theorem words_columns (columns : List Column) (h : ∀ c ∈ columns.tail, 0 < c.gap) :
    words (columns.flatMap Column.text) = columns.map fun c => digitsOf c.value := by
  induction columns with
  | nil => rfl
  | cons c columns ih =>
    -- behind the first number the text ends, or a space stands
    have hnext : ∀ b ∈ (columns.flatMap Column.text).head?, isBlank b = true := by
      cases columns with
      | nil => nofun
      | cons d columns =>
        obtain ⟨g, hg⟩ := Nat.exists_eq_succ_of_ne_zero (h d List.mem_cons_self).ne'
        rw [List.flatMap_cons, Column.text, hg, List.replicate_succ]
        intro b hb
        cases hb
        rfl
    have hnumber : digitsOf c.value ≠ [] := Nat.toDigits_ne_nil
    have htail := ih fun d hd => h d (List.mem_of_mem_tail hd)
    rw [List.flatMap_cons, Column.text, List.append_assoc,
      words_blanks_append isBlank_of_mem_spaces, words_append hnumber (isBlank_digitsOf _) hnext,
      htail]
    rfl

namespace Row

theorem rowBytes_columns (r : Row) :
    rowBytes (r.columns.map fun c => digitsOf c.value) =
      .ok (some ((r.received : Int), (r.sent : Int))) := by
  have h := r.nine_le
  have hread : ∀ i (hi : i < r.columns.length), readInteger (digitsOf r.columns[i].value) =
      .ok (r.columns[i].value : Int) :=
    fun i hi => readInteger_digitsOf (r.size_le _ (List.getElem_mem hi))
  rw [rowBytes, List.getElem?_map, List.getElem?_map, List.getElem?_eq_getElem,
    List.getElem?_eq_getElem]
  dsimp only [Option.map_some]
  rw [hread 0, hread 8]
  rfl

theorem row?_text (r : Row) :
    row? r.text = some (.chars r.name, r.columns.map fun c => digitsOf c.value) := by
  have hcolon : ':' ∉ List.replicate r.indent ' ' ++ r.name.toList := by
    rw [List.mem_append, not_or]
    refine ⟨fun h => ?_, r.name_colon⟩
    cases List.eq_of_mem_replicate h
  have htrim : trim (List.replicate r.indent ' ' ++ r.name.toList) = r.name.toList := by
    have hhead := (Option.any_eq_false isBlank _).mp r.name_head
    have hlast := (Option.any_eq_false isBlank _).mp r.name_last
    have hname := trimWhere_append (isBlank_of_mem_spaces (n := r.indent)) (List.forall_mem_nil _)
      hhead hlast
    rwa [List.append_nil] at hname
  rw [row?, text, cutAt_append hcolon, Option.map_some]
  dsimp only
  rw [htrim, words_columns _ r.apart, LooseText.ofList, String.ofList_toList]

theorem not_mem_text (r : Row) {c : Char} (hblank : isBlank c = true) (hspace : c ≠ ' ')
    (hname : c ∉ r.name.toList) : c ∉ r.text := by
  have hspaces : ∀ n, c ∉ List.replicate n ' ' := fun n h => hspace (List.eq_of_mem_replicate h)
  have hcolumns : c ∉ r.columns.flatMap Column.text := by
    intro h
    obtain ⟨column, -, h⟩ := List.mem_flatMap.mp h
    rcases List.mem_append.mp h with h | h
    · exact hspaces _ h
    · have hdigit := isBlank_digitsOf _ c h
      rw [hblank] at hdigit
      cases hdigit
  simp only [text, List.mem_append, List.mem_cons, not_or]
  refine ⟨⟨hspaces _, hname⟩, ?_, hcolumns⟩
  rintro rfl
  cases hblank

theorem admits_name (f : Filter) (r : Row) :
    f.admits (.chars r.name) = decide (r.Counts f) := by
  rw [Filter.admits, loopback]
  cases honly : f.only with
  | none => simp [Counts, honly]
  | some one => simp [Counts, honly, Bool.and_assoc]

theorem lineBytes_text (f : Filter) (r : Row) : lineBytes f r.text =
    .ok (if r.Counts f then some ((r.received : Int), (r.sent : Int)) else none) := by
  rw [lineBytes_of_row r.row?_text, admits_name, rowBytes_columns]
  simp only [decide_eq_true_eq]
  split <;> rfl

end Row

/-- A head of lines without a colon, and a line for each row. -/
def tableText (head : List String) (rows : List Row) : String :=
  String.ofList ((head.map String.toList ++ rows.map Row.text).flatMap fun line => line ++ ['\n'])

theorem totals_head {f : Filter} {cs rest : List Char} {total : Int × Int} (h : ':' ∉ cs)
    (ht : totals f rest = .ok total) : totals f (cs ++ '\n' :: rest) = .ok total := by
  obtain ⟨heads, hlines, hmem⟩ := lines_append cs rest
  have hrow : ∀ w ∈ heads, row? w = none := by
    intro w hw
    refine Option.map_eq_none_iff.mpr (cutAt_eq_none_iff.mpr fun hc => ?_)
    rcases hmem w hw ':' hc with hc | hc
    · exact h hc
    · cases hc
  obtain ⟨hread, hsum⟩ := sumLines_eq_ok_iff.mp ht
  rw [totals, hlines]
  refine sumLines_eq_ok_iff.mpr ⟨?_, ?_⟩
  · intro w hw
    rcases List.mem_append.mp hw with hw | hw
    · exact ⟨none, lineBytes_of_no_row (hrow w hw)⟩
    · exact hread w hw
  · have hnothing : (heads.map (added f)).sum = 0 := by
      refine List.sum_eq_zero fun b hb => ?_
      obtain ⟨w, hw, rfl⟩ := List.mem_map.mp hb
      exact added_of_no_row (hrow w hw)
    rw [List.map_append, List.sum_append, hnothing, zero_add, hsum]

def Row.adds (f : Filter) (r : Row) : Int × Int :=
  if r.Counts f then ((r.received : Int), (r.sent : Int)) else 0

theorem totals_row {f : Filter} {rest : List Char} {total : Int × Int} (r : Row)
    (ht : totals f rest = .ok total) :
    totals f (r.text ++ '\n' :: rest) = .ok (r.adds f + total) := by
  obtain ⟨hread, hsum⟩ := sumLines_eq_ok_iff.mp ht
  have hadded : added f r.text = r.adds f := by
    rw [added, Row.lineBytes_text, Row.adds]
    dsimp only
    split <;> rfl
  rw [totals, lines_append_of_line (r.not_mem_text rfl (by decide) r.name_line.1)
    (r.not_mem_text rfl (by decide) r.name_line.2)]
  refine sumLines_eq_ok_iff.mpr ⟨?_, ?_⟩
  · refine List.forall_mem_cons.mpr ⟨⟨_, Row.lineBytes_text f r⟩, hread⟩
  · rw [List.map_cons, List.sum_cons, hadded, hsum]

theorem sum_adds (f : Filter) (rows : List Row) :
    (rows.map (Row.adds f)).sum =
      (((rows.filter fun r => r.Counts f).map fun r => (r.received : Int)).sum,
        ((rows.filter fun r => r.Counts f).map fun r => (r.sent : Int)).sum) := by
  induction rows with
  | nil => rfl
  | cons r rows ih =>
    rw [List.map_cons, List.sum_cons, ih, Row.adds]
    by_cases h : r.Counts f
    · simp [h]
    · simp [h]

theorem totals_tableText (f : Filter) {head : List String}
    (h : ∀ line ∈ head, ':' ∉ line.toList) (rows : List Row) :
    totals f (tableText head rows).toList = .ok (rows.map (Row.adds f)).sum := by
  rw [tableText, String.toList_ofList]
  induction head with
  | nil =>
    induction rows with
    | nil => rfl
    | cons r rows ih =>
      have hsum : ((r :: rows).map (Row.adds f)).sum = r.adds f + (rows.map (Row.adds f)).sum :=
        List.sum_cons
      have hrow := totals_row r ih
      rw [hsum]
      simpa using hrow
  | cons line head ih =>
    obtain ⟨hline, hhead⟩ := List.forall_mem_cons.mp h
    have hread := totals_head hline (ih hhead)
    simpa using hread

/-- Reading a table gives the sums of the first and of the ninth column over the rows that
count, and the order of the rows does not matter. -/
theorem fileTotals_tableText (f : Filter) (path : String) {head : List String}
    (h : ∀ line ∈ head, ':' ∉ line.toList) (rows : List Row) :
    fileTotals f path (some (tableText head rows).toUTF8) =
        .ok (((rows.filter fun r => r.Counts f).map fun r => (r.received : Int)).sum,
          ((rows.filter fun r => r.Counts f).map fun r => (r.sent : Int)).sum) ∧
      ∀ rows' : List Row, rows'.Perm rows →
        fileTotals f path (some (tableText head rows').toUTF8) =
          fileTotals f path (some (tableText head rows).toUTF8) := by
  have hread : ∀ rows : List Row, fileTotals f path (some (tableText head rows).toUTF8) =
      .ok (rows.map (Row.adds f)).sum := by
    intro rows
    refine fileTotals_eq_ok_iff.mpr ⟨_, tableText head rows, rfl, ?_, totals_tableText f h rows⟩
    exact dif_pos (tableText head rows).isValidUTF8
  refine ⟨?_, ?_⟩
  · rw [hread, sum_adds]
  · intro rows' hperm
    rw [hread, hread, (hperm.map (Row.adds f)).sum_eq]

def loopbackRow : Row where
  indent := 4
  name := "lo"
  columns := ⟨1, 77⟩ :: (List.replicate 7 ⟨4, 0⟩ ++ [⟨1, 77⟩])

def tunnelRow : Row where
  indent := 0
  name := "tun α"
  columns := ⟨0, 2500⟩ :: (List.replicate 7 ⟨3, 0⟩ ++ [⟨1, 40⟩, ⟨2, 5⟩])

def wirelessRow : Row where
  indent := 1
  name := "wlan0"
  columns := ⟨5, 16⟩ :: (List.replicate 7 ⟨1, 0⟩ ++ [⟨1, 8⟩])

def twoLines : List String := ["Inter-|   Receive", " face |bytes  packets"]

theorem fileTotals_of_three_rows :
    (∀ line ∈ twoLines, ':' ∉ line.toList) ∧
      fileTotals { excluded := ["eth0"] } "net_dev"
        (some (tableText twoLines [loopbackRow, tunnelRow, wirelessRow]).toUTF8) =
          .ok (2516, 48) ∧
      fileTotals { excluded := ["eth0"] } "net_dev"
        (some (tableText twoLines [wirelessRow, loopbackRow, tunnelRow]).toUTF8) =
          .ok (2516, 48) := by
  have hhead : ∀ line ∈ twoLines, ':' ∉ line.toList := by decide
  obtain ⟨hread, horder⟩ := fileTotals_tableText { excluded := ["eth0"] } "net_dev" hhead
    [loopbackRow, tunnelRow, wirelessRow]
  have hsums : fileTotals { excluded := ["eth0"] } "net_dev"
      (some (tableText twoLines [loopbackRow, tunnelRow, wirelessRow]).toUTF8) =
        .ok (2516, 48) := by
    rw [hread]
    rfl
  refine ⟨hhead, hsums, ?_⟩
  rw [horder [wirelessRow, loopbackRow, tunnelRow]
    (@List.perm_append_comm _ [wirelessRow] [loopbackRow, tunnelRow]), hsums]

end Counters

end TrafficIndicator
