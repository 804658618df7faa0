import Mathlib.Data.List.Nodup
import TrafficIndicator.Proofs.ValueEquality
import TrafficIndicator.Station.Watching

/-!
Where keys are distinct, looking a key up and being an entry are the same. Pairs that are put
one after another leave each key with its last value. What a settings file tells after an edit
is worked out key by key from the entries before and after it.
-/
namespace TrafficIndicator

def Keyed (es : List (LooseText × Value)) : Prop := (es.map Prod.fst).Nodup

theorem keyed_nil : Keyed [] := List.nodup_nil

theorem Keyed.lookup_eq_some {es : List (LooseText × Value)} (h : Keyed es) {k : LooseText}
    {v : Value} : es.lookup k = some v ↔ (k, v) ∈ es := by
  refine ⟨Value.mem_of_lookup, fun hm => ?_⟩
  induction es with
  | nil => cases hm
  | cons e es ih =>
    obtain ⟨key, w⟩ := e
    obtain ⟨hne, htail⟩ := List.nodup_cons.mp h
    rcases List.mem_cons.mp hm with he | hes
    · cases he
      rw [List.lookup_cons, beq_self_eq_true]
    · have hk : k ≠ key := by
        rintro rfl
        exact hne (List.mem_map.mpr ⟨_, hes, rfl⟩)
      rw [List.lookup_cons, beq_eq_false_iff_ne.mpr hk]
      exact ih htail hes

theorem lookup_eq_none {es : List (LooseText × Value)} {k : LooseText} :
    es.lookup k = none ↔ k ∉ es.map Prod.fst := by
  rw [List.lookup_eq_none_iff, List.mem_map]
  constructor
  · rintro h ⟨e, he, rfl⟩
    exact bne_iff_ne.mp (h e he) rfl
  · intro h e he
    exact bne_iff_ne.mpr fun hk => h ⟨e, he, hk.symm⟩

namespace Value

theorem keys_putEntry (key : LooseText) (v : Value) (es : List (LooseText × Value)) :
    (putEntry key v es).map Prod.fst =
      if key ∈ es.map Prod.fst then es.map Prod.fst else es.map Prod.fst ++ [key] := by
  induction es with
  | nil => rfl
  | cons e es ih =>
    obtain ⟨k, w⟩ := e
    rw [putEntry]
    by_cases hk : k = key
    · simp [hk]
    · have hne : key ≠ k := fun h => hk h.symm
      have hm : key ∈ ((k, w) :: es).map Prod.fst ↔ key ∈ es.map Prod.fst := by simp [hne]
      rw [if_neg hk, List.map_cons, ih, if_congr hm rfl rfl]
      split <;> rfl

theorem keyed_putEntry {es : List (LooseText × Value)} (h : Keyed es) (key : LooseText)
    (v : Value) : Keyed (putEntry key v es) := by
  rw [Keyed, keys_putEntry]
  split
  · exact h
  · rename_i hk
    exact List.nodup_append.mpr ⟨h, List.nodup_singleton _, fun a ha b hb => by
      rw [List.mem_singleton] at hb
      rintro rfl
      exact hk (hb ▸ ha)⟩

theorem lookup_putEntry (key k : LooseText) (v : Value) (es : List (LooseText × Value)) :
    (putEntry key v es).lookup k = if k = key then some v else es.lookup k := by
  induction es with
  | nil =>
    rw [putEntry, List.lookup_cons, List.lookup_nil]
    by_cases hk : k = key
    · simp [hk]
    · rw [if_neg hk, beq_eq_false_iff_ne.mpr hk]
  | cons e es ih =>
    obtain ⟨key', w⟩ := e
    rw [putEntry]
    by_cases hkey : key' = key
    · subst hkey
      rw [if_pos rfl, List.lookup_cons, List.lookup_cons]
      by_cases hk : k = key'
      · simp [hk]
      · rw [if_neg hk, beq_eq_false_iff_ne.mpr hk]
    · rw [if_neg hkey, List.lookup_cons, List.lookup_cons, ih]
      by_cases hk : k = key'
      · subst hk
        simp [hkey]
      · rw [beq_eq_false_iff_ne.mpr hk]

theorem lookup_foldl_putEntry {told : List (LooseText × Value)} (h : Keyed told) (k : LooseText)
    (es : List (LooseText × Value)) :
    (told.foldl (fun es (k, v) => putEntry k v es) es).lookup k =
      (told.lookup k).or (es.lookup k) := by
  induction told generalizing es with
  | nil => rfl
  | cons e told ih =>
    obtain ⟨key, v⟩ := e
    obtain ⟨hne, htail⟩ := List.nodup_cons.mp h
    rw [List.foldl_cons, ih htail, lookup_putEntry, List.lookup_cons]
    by_cases hk : k = key
    · subst hk
      rw [if_pos rfl, beq_self_eq_true, lookup_eq_none.mpr hne]
      rfl
    · rw [if_neg hk, beq_eq_false_iff_ne.mpr hk]

theorem lookup_entriesOf_append (heard : List (LooseText × Value))
    {told : List (LooseText × Value)} (h : Keyed told) (k : LooseText) :
    (entriesOf (heard ++ told)).lookup k = (told.lookup k).or ((entriesOf heard).lookup k) := by
  rw [entriesOf, List.foldl_append, lookup_foldl_putEntry h]
  rfl

theorem lookup_entriesOf {es : List (LooseText × Value)} (h : Keyed es) (k : LooseText) :
    (entriesOf es).lookup k = es.lookup k := by
  rw [entriesOf, lookup_foldl_putEntry h, List.lookup_nil, Option.or_none]

end Value

variable {defaults before now : List (LooseText × Value)}

theorem mem_changedEntries {k : LooseText} {w : Value} :
    (k, w) ∈ changedEntries defaults before now ↔
      ((k, w) ∈ now ∧ ∀ p, before.lookup k = some p → p.equal w = false) ∨
      (before.lookup k ≠ none ∧ now.lookup k = none ∧ w = (defaults.lookup k).getD .null) := by
  rw [changedEntries, List.mem_append, List.mem_filter, List.mem_map]
  refine or_congr (and_congr_right fun _ => ?_) ?_
  · cases hb : before.lookup k <;> simp [hb]
  · constructor
    · rintro ⟨key, hm, he⟩
      cases he
      rw [List.mem_mergeSort, List.mem_filter, Option.isNone_iff_eq_none] at hm
      refine ⟨?_, hm.2, rfl⟩
      rw [Ne, lookup_eq_none, not_not]
      exact hm.1
    · rintro ⟨hb, hn, rfl⟩
      refine ⟨k, ?_, rfl⟩
      rw [List.mem_mergeSort, List.mem_filter, Option.isNone_iff_eq_none]
      rw [Ne, lookup_eq_none, not_not] at hb
      exact ⟨hb, hn⟩

theorem keyed_changedEntries (hb : Keyed before) (hn : Keyed now) :
    Keyed (changedEntries defaults before now) := by
  rw [Keyed, changedEntries, List.map_append, List.nodup_append]
  refine ⟨hn.sublist (List.filter_sublist.map _), ?_, ?_⟩
  · rw [List.map_map]
    have hid : (Prod.fst ∘ fun k => (k, (defaults.lookup k).getD .null)) = (id : LooseText → _) :=
      rfl
    rw [hid, List.map_id]
    exact (List.mergeSort_perm _ _).nodup_iff.mpr (hb.filter _)
  · rintro a ha b hbm rfl
    obtain ⟨e, he, rfl⟩ := List.mem_map.mp ha
    obtain ⟨f, hf, hfe⟩ := List.mem_map.mp hbm
    obtain ⟨key, hkey, rfl⟩ := List.mem_map.mp hf
    rw [List.mem_mergeSort, List.mem_filter, Option.isNone_iff_eq_none] at hkey
    have hnot := lookup_eq_none.mp hkey.2
    replace hfe : key = e.1 := hfe
    exact hnot (hfe ▸ List.mem_map_of_mem (List.mem_filter.mp he).1)

/-- A key is told with its new value if that is no equal of the one before, and with its
default if it has vanished. -/
theorem lookup_changedEntries (hb : Keyed before) (hn : Keyed now) (k : LooseText) :
    (changedEntries defaults before now).lookup k =
      match now.lookup k, before.lookup k with
      | some v, some p => if p.equal v then none else some v
      | some v, none => some v
      | none, some _ => some ((defaults.lookup k).getD .null)
      | none, none => none := by
  have hc : Keyed (changedEntries defaults before now) := keyed_changedEntries hb hn
  refine Option.ext fun w => ?_
  rw [hc.lookup_eq_some, mem_changedEntries, ← hn.lookup_eq_some]
  cases now.lookup k with
  | none =>
    cases before.lookup k with
    | none => simp
    | some p => simpa using eq_comm
  | some v =>
    cases before.lookup k with
    | none => simp
    | some p =>
      have hp : ∀ q, some p = some q → q = p := fun q hq => (Option.some.inj hq).symm
      cases he : p.equal v with
      | false =>
        dsimp only
        rw [he, if_neg Bool.false_ne_true]
        constructor
        · rintro (⟨hv, -⟩ | ⟨-, hv, -⟩)
          · exact hv
          · cases hv
        · intro hv
          cases hv
          exact Or.inl ⟨rfl, fun q hq => hp q hq ▸ he⟩
      | true =>
        dsimp only
        rw [he, if_pos rfl]
        constructor
        · rintro (⟨hv, hw⟩ | ⟨-, hv, -⟩)
          · cases hv
            rw [hw p rfl] at he
            cases he
          · cases hv
        · intro hv
          cases hv

end TrafficIndicator
