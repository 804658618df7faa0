import Mathlib.Algebra.BigOperators.Group.List.Basic
import Mathlib.Algebra.Group.Prod
import Mathlib.Algebra.Ring.Int.Defs
import TrafficIndicator.Counters.Table

/-!
The totals of a table are the sum of what its lines add, and a table can be read exactly when
each of its lines can. A line belongs to one interface at most, and a filter only takes lines
away. So the interfaces of a list, left out of one reading and read one by one in others, make
up the reading that leaves out none.
-/
namespace TrafficIndicator.Counters

open Text

def row? (line : List Char) : Option (LooseText × List (List Char)) :=
  (cutAt ':' line).map fun (name, columns) => (.ofList (trim name), words columns)

variable {f : Filter} {line : List Char} {name : LooseText} {columns : List (List Char)}

theorem lineBytes_of_no_row (h : row? line = none) : lineBytes f line = .ok none := by
  rw [lineBytes, Option.map_eq_none_iff.mp h]

theorem lineBytes_of_row (h : row? line = some (name, columns)) :
    lineBytes f line = if f.admits name then rowBytes columns else .ok none := by
  obtain ⟨⟨before, behind⟩, hcut, hrow⟩ := Option.map_eq_some_iff.mp h
  obtain ⟨rfl, rfl⟩ := Prod.mk.inj hrow
  rw [lineBytes, hcut]

def added (f : Filter) (line : List Char) : Int × Int :=
  match lineBytes f line with
  | .ok found => found.getD 0
  | .error _ => 0

theorem added_of_no_row (h : row? line = none) : added f line = 0 := by
  rw [added, lineBytes_of_no_row h]
  rfl

theorem added_of_refused (h : row? line = some (name, columns)) (hf : f.admits name = false) :
    added f line = 0 := by
  rw [added, lineBytes_of_row h, hf]
  rfl

theorem added_congr {g : Filter} (h : row? line = some (name, columns))
    (hfg : f.admits name = g.admits name) : added f line = added g line := by
  rw [added, added, lineBytes_of_row h, lineBytes_of_row h, hfg]

theorem sumLines_eq_ok_iff {lines : List (List Char)} {total : Int × Int} :
    sumLines f lines = .ok total ↔
      (∀ line ∈ lines, ∃ found, lineBytes f line = .ok found) ∧
        (lines.map (added f)).sum = total := by
  induction lines generalizing total with
  | nil => simp [sumLines, eq_comm, Prod.zero_eq_mk]
  | cons line lines ih =>
    rw [sumLines, List.forall_mem_cons, List.map_cons, List.sum_cons]
    cases hl : lineBytes f line with
    | error e => simp
    | ok found =>
      have hadded : added f line = found.getD 0 := by rw [added, hl]
      rw [hadded]
      cases hs : sumLines f lines with
      | error e =>
        -- the rest cannot be read, so one of its lines cannot
        have hrest : ¬∀ line ∈ lines, ∃ found, lineBytes f line = .ok found := by
          intro hr
          have hok : sumLines f lines = .ok (lines.map (added f)).sum := ih.mpr ⟨hr, rfl⟩
          rw [hs] at hok
          cases hok
        simp [hrest]
      | ok rest =>
        obtain ⟨hr, rfl⟩ := ih.mp hs
        change Except.ok (found.getD 0 + (lines.map (added f)).sum) = .ok total ↔ _
        rw [and_iff_left hr, and_iff_right ⟨found, rfl⟩, Except.ok.injEq]

theorem admits_all (name : LooseText) : ({} : Filter).admits name = decide (name ≠ loopback) := by
  simp [Filter.admits]

theorem admits_without (names : List LooseText) (name : LooseText) :
    Filter.admits { excluded := names } name =
      (decide (name ≠ loopback) && !names.contains name) := by
  simp [Filter.admits]

theorem admits_alone {one : LooseText} (h : one.isEmpty = false) (name : LooseText) :
    Filter.admits { only := some one } name =
      (decide (name ≠ loopback) && decide (one = name)) := by
  simp [Filter.admits, h]

theorem lineBytes_filtered (h : ∃ found, lineBytes {} line = .ok found) (f : Filter) :
    ∃ found, lineBytes f line = .ok found := by
  cases hrow : row? line with
  | none => exact ⟨none, lineBytes_of_no_row hrow⟩
  | some row =>
    obtain ⟨name, columns⟩ := row
    rw [lineBytes_of_row hrow]
    split
    · rename_i hadmits
      have hname : ({} : Filter).admits name = true := by
        rw [admits_all]
        simp only [Filter.admits, Bool.and_eq_true] at hadmits
        exact hadmits.1.1
      rw [lineBytes_of_row hrow, if_pos hname] at h
      exact h
    · exact ⟨none, rfl⟩

theorem sumLines_filtered {lines : List (List Char)} {total : Int × Int}
    (h : sumLines {} lines = .ok total) (f : Filter) :
    sumLines f lines = .ok (lines.map (added f)).sum := by
  obtain ⟨hread, -⟩ := sumLines_eq_ok_iff.mp h
  exact sumLines_eq_ok_iff.mpr ⟨fun line hl => lineBytes_filtered (hread line hl) f, rfl⟩

/-- What only one name of a list counts for is counted once, if the name is in the list. -/
theorem sum_of_name {names : List LooseText} (hn : names.Nodup) (name : LooseText)
    (b : Int × Int) :
    (names.map fun one => if one = name then b else 0).sum = if name ∈ names then b else 0 := by
  rw [List.sum_map_ite_eq names (fun _ => b) (fun _ => 0), List.map_const', List.sum_replicate,
    nsmul_zero, add_zero, sub_zero, hn.count]
  split
  · exact one_nsmul b
  · exact zero_nsmul b

/-- A line adds to the reading without the listed interfaces, or to that of one of them. -/
theorem added_eq_without_add_alone {names : List LooseText} (hn : names.Nodup)
    (he : ∀ one ∈ names, one.isEmpty = false) (line : List Char) :
    added {} line = added { excluded := names } line +
      (names.map fun one => added { only := some one } line).sum := by
  cases hrow : row? line with
  | none => simp [added_of_no_row hrow]
  | some row =>
    obtain ⟨name, columns⟩ := row
    have halone : ∀ one ∈ names, added { only := some one } line =
        if one = name then added {} line else 0 := by
      intro one hone
      split
      · rename_i h
        refine added_congr hrow ?_
        rw [admits_alone (he one hone), admits_all, h]
        simp
      · rename_i h
        refine added_of_refused hrow ?_
        rw [admits_alone (he one hone), decide_eq_false h, Bool.and_false]
    rw [List.map_congr_left halone, sum_of_name hn]
    by_cases hname : name ∈ names
    · have hleft : added { excluded := names } line = 0 := by
        refine added_of_refused hrow ?_
        rw [admits_without, List.contains_iff_mem.mpr hname]
        simp
      rw [hleft, if_pos hname, zero_add]
    · have hkept : added { excluded := names } line = added {} line := by
        refine added_congr hrow ?_
        rw [admits_without, admits_all]
        simp [hname]
      rw [hkept, if_neg hname, add_zero]

theorem sum_added_eq {names : List LooseText} (hn : names.Nodup)
    (he : ∀ one ∈ names, one.isEmpty = false) (lines : List (List Char)) :
    (lines.map (added {})).sum = (lines.map (added { excluded := names })).sum +
      (names.map fun one => (lines.map (added { only := some one })).sum).sum := by
  induction lines with
  | nil => simp
  | cons line lines ih =>
    simp only [List.map_cons, List.sum_cons, List.sum_map_add]
    rw [ih, added_eq_without_add_alone hn he line]
    exact add_add_add_comm _ _ _ _

theorem nodup_eraseDups {α : Type} [DecidableEq α] : ∀ xs : List α, xs.eraseDups.Nodup
  | [] => List.nodup_nil
  | x :: xs => by
    rw [List.eraseDups_cons]
    refine List.nodup_cons.mpr ⟨?_, nodup_eraseDups (xs.filter fun y => !y == x)⟩
    simp
termination_by xs => xs.length
decreasing_by exact Nat.lt_succ_of_le (List.length_filter_le _ _)

theorem nodup_names (raw : LooseText) : (names raw).Nodup := nodup_eraseDups _

theorem isEmpty_of_mem_names {raw one : LooseText} (h : one ∈ names raw) :
    one.isEmpty = false := by
  have hmem := List.mem_eraseDups.mp h
  simpa using (List.mem_filter.mp hmem).2

theorem fileTotals_eq_ok_iff {path : String} {file : Option ByteArray} {total : Int × Int} :
    fileTotals f path file = .ok total ↔
      ∃ bytes text, file = some bytes ∧ String.fromUTF8? bytes = some text ∧
        totals f text.toList = .ok total := by
  cases file with
  | none => simp [fileTotals]
  | some bytes =>
    rw [fileTotals]
    cases ht : String.fromUTF8? bytes with
    | none => simp [ht]
    | some text => simp [ht]

/-- Where a table file can be read without a filter, it can be read without the interfaces of a
list and with each of them alone, and what these readings give adds up to the unfiltered one. -/
theorem totals_eq_without_add_alone {path : String} {file : Option ByteArray}
    {total : Int × Int} (h : fileTotals {} path file = .ok total) (raw : LooseText) :
    ∃ (rest : Int × Int) (part : LooseText → Int × Int),
      fileTotals { excluded := names raw } path file = .ok rest ∧
      (∀ one ∈ names raw, fileTotals { only := some one } path file = .ok (part one)) ∧
      total = rest + ((names raw).map part).sum := by
  obtain ⟨bytes, text, rfl, ht, hsum⟩ := fileTotals_eq_ok_iff.mp h
  have hread : ∀ f : Filter, fileTotals f path (some bytes) =
      .ok ((lines text.toList).map (added f)).sum :=
    fun f => fileTotals_eq_ok_iff.mpr ⟨bytes, text, rfl, ht, sumLines_filtered hsum f⟩
  refine ⟨_, _, hread { excluded := names raw }, fun one _ => hread { only := some one }, ?_⟩
  rw [← (sumLines_eq_ok_iff.mp hsum).2]
  exact sum_added_eq (nodup_names raw) (fun _ => isEmpty_of_mem_names) _

def fourInterfaces : String :=
  "Inter-| face\n lo: 7 0 0 0 0 0 0 0 7\n eth0:10 0 0 0 0 0 0 0 1\neth0 : 20 0 0 0 0 0 0 0 2\n" ++
    "wlan0: 5 0\n tun0: 300 0 0 0 0 0 0 0 30\r\n : 4000 0 0 0 0 0 0 0 400\n"

theorem totals_eq_without_eth0 :
    names " eth0,lo,,eth0 " = [.chars "eth0", .chars "lo"] ∧
      fileTotals {} "net_dev" (some fourInterfaces.toUTF8) = .ok (4330, 433) ∧
      ∃ (rest : Int × Int) (part : LooseText → Int × Int),
        fileTotals { excluded := [.chars "eth0", .chars "lo"] } "net_dev"
          (some fourInterfaces.toUTF8) = .ok rest ∧
        (∀ one ∈ [LooseText.chars "eth0", .chars "lo"],
          fileTotals { only := some one } "net_dev" (some fourInterfaces.toUTF8) =
            .ok (part one)) ∧
        ((4330, 433) : Int × Int) =
          rest + ([LooseText.chars "eth0", .chars "lo"].map part).sum := by
  have hnames : names " eth0,lo,,eth0 " = [.chars "eth0", .chars "lo"] := by decide +kernel
  have hread : fileTotals {} "net_dev" (some fourInterfaces.toUTF8) = .ok (4330, 433) := by
    decide +kernel
  have hparts := totals_eq_without_add_alone hread " eth0,lo,,eth0 "
  rw [hnames] at hparts
  exact ⟨hnames, hread, hparts⟩

end TrafficIndicator.Counters
