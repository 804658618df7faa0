import TrafficIndicator.Value.Basic

/-!
Equality is decided shape by shape: numbers go by what they denote, whatever their kind, and
everything else has its like only among values of its own shape. It is transitive, both inside
of lists and mappings and for values on their own.
-/
namespace TrafficIndicator.Value

theorem alike_null {v : Value} : alike .null v = true ↔ v = .null := by
  cases v <;> simp [alike, sameMagnitude, magnitude?]

theorem alike_text {t : LooseText} {v : Value} : alike (.text t) v = true ↔ v = .text t := by
  cases v with
  | text a => simpa [alike] using eq_comm
  | _ => simp [alike, sameMagnitude, magnitude?]

theorem alike_undefined {i : Nat} {v : Value} :
    alike (.undefined i) v = true ↔ v = .undefined i := by
  cases v with
  | undefined j => simpa [alike] using eq_comm
  | _ => simp [alike, sameMagnitude, magnitude?]

theorem alike_list {xs : List Value} {v : Value} :
    alike (.list xs) v = true ↔ ∃ ys, v = .list ys ∧ alikeItems xs ys = true := by
  cases v <;> simp [alike, sameMagnitude, magnitude?]

theorem alike_dict {es : List (LooseText × Value)} {v : Value} :
    alike (.dict es) v = true ↔
      ∃ fs, v = .dict fs ∧ es.length = fs.length ∧ alikeEntries es fs = true := by
  cases v <;> simp [alike, sameMagnitude, magnitude?]

theorem sameMagnitude_iff {v w : Value} :
    sameMagnitude v w = true ↔ ∃ m, v.magnitude? = some m ∧ w.magnitude? = some m := by
  rw [sameMagnitude]
  cases v.magnitude? with
  | none => simp
  | some p =>
    cases w.magnitude? with
    | none => simp
    | some q => simpa using eq_comm

def isNumeric : Value → Bool
  | .bool _ => true
  | .int _ => true
  | .float _ => true
  | _ => false

theorem isNumeric_of_magnitude {v : Value} {m : Magnitude} (h : v.magnitude? = some m) :
    v.isNumeric = true := by
  cases v <;> first | rfl | cases h

theorem alike_numeric {v w : Value} (h : v.isNumeric = true) :
    alike v w = true ↔ ∃ m, v.magnitude? = some m ∧ w.magnitude? = some m := by
  rw [← sameMagnitude_iff]
  cases v with
  | bool | int | float => rw [alike] <;> simp
  | _ => cases h

/-- What is no number is only like itself, or a list like a list, or a mapping like a mapping. -/
theorem shape_of_alike {v w : Value} (hn : v.isNumeric = false) (h : alike v w = true) :
    v = w ∨ (∃ xs ys, v = .list xs ∧ w = .list ys) ∨ ∃ es fs, v = .dict es ∧ w = .dict fs := by
  cases v with
  | null => exact Or.inl (alike_null.mp h).symm
  | text t => exact Or.inl (alike_text.mp h).symm
  | undefined i => exact Or.inl (alike_undefined.mp h).symm
  | list xs =>
    obtain ⟨ys, hw, -⟩ := alike_list.mp h
    exact Or.inr (Or.inl ⟨xs, ys, rfl, hw⟩)
  | dict es =>
    obtain ⟨fs, hw, -⟩ := alike_dict.mp h
    exact Or.inr (Or.inr ⟨es, fs, rfl, hw⟩)
  | bool | int | float => cases hn

theorem numeric_trans {u v w : Value} (hu : u.isNumeric = true) (h : alike u v = true)
    (k : alike v w = true) : alike u w = true := by
  obtain ⟨m, hum, hvm⟩ := (alike_numeric hu).mp h
  obtain ⟨n, hvn, hwn⟩ := (alike_numeric (isNumeric_of_magnitude hvm)).mp k
  rw [hvm] at hvn
  cases hvn
  exact (alike_numeric hu).mpr ⟨m, hum, hwn⟩

theorem alikeEntries_iff {es fs : List (LooseText × Value)} :
    alikeEntries es fs = true ↔
      ∀ e ∈ es, ∃ w, fs.lookup e.1 = some w ∧ alike e.2 w = true := by
  induction es with
  | nil => simp [alikeEntries]
  | cons e es ih =>
    obtain ⟨k, v⟩ := e
    rw [alikeEntries, Bool.and_eq_true, ih, List.forall_mem_cons]
    refine and_congr_left fun _ => ?_
    cases fs.lookup k <;> simp

theorem mem_of_lookup {es : List (LooseText × Value)} {k : LooseText} {v : Value}
    (h : es.lookup k = some v) : (k, v) ∈ es := by
  obtain ⟨before, after, rfl, -⟩ := List.lookup_eq_some_iff.mp h
  simp

mutual

theorem alike_trans {u v w : Value} (h : alike u v = true) (k : alike v w = true) :
    alike u w = true := by
  cases u with
  | null =>
    rw [alike_null.mp h] at k
    exact k
  | text t =>
    rw [alike_text.mp h] at k
    exact k
  | undefined i =>
    rw [alike_undefined.mp h] at k
    exact k
  | bool b => exact numeric_trans rfl h k
  | int n => exact numeric_trans rfl h k
  | float x => exact numeric_trans rfl h k
  | list xs =>
    obtain ⟨ys, rfl, hxy⟩ := alike_list.mp h
    obtain ⟨zs, rfl, hyz⟩ := alike_list.mp k
    exact alike_list.mpr ⟨zs, rfl, alikeItems_trans hxy hyz⟩
  | dict es =>
    obtain ⟨fs, rfl, hlen, hef⟩ := alike_dict.mp h
    obtain ⟨gs, rfl, hlen', hfg⟩ := alike_dict.mp k
    exact alike_dict.mpr ⟨gs, rfl, hlen.trans hlen', alikeEntries_trans hef hfg⟩

theorem alikeItems_trans {xs ys zs : List Value} (h : alikeItems xs ys = true)
    (k : alikeItems ys zs = true) : alikeItems xs zs = true := by
  match xs, ys, zs with
  | [], [], [] => rfl
  | x :: xs, y :: ys, z :: zs =>
    rw [alikeItems, Bool.and_eq_true] at h k ⊢
    exact ⟨alike_trans h.1 k.1, alikeItems_trans h.2 k.2⟩

theorem alikeEntries_trans {es fs gs : List (LooseText × Value)} (h : alikeEntries es fs = true)
    (k : alikeEntries fs gs = true) : alikeEntries es gs = true := by
  match es with
  | [] => rfl
  | (key, v) :: es =>
    obtain ⟨⟨w, hw, hvw⟩, hrest⟩ := List.forall_mem_cons.mp (alikeEntries_iff.mp h)
    obtain ⟨x, hx, hwx⟩ := alikeEntries_iff.mp k _ (mem_of_lookup hw)
    have htail : alikeEntries es gs = true := alikeEntries_trans (alikeEntries_iff.mpr hrest) k
    have hhead : alike v x = true := alike_trans hvw hwx
    rw [alikeEntries_iff, List.forall_mem_cons]
    exact ⟨⟨x, hx, hhead⟩, alikeEntries_iff.mp htail⟩

end

theorem equal_iff {v w : Value} : equal v w = true ↔ v.isUndefined = false ∧ alike v w = true := by
  rw [equal, Bool.and_eq_true, Bool.not_eq_true']

theorem equal_trans {u v w : Value} (h : equal u v = true) (k : equal v w = true) :
    equal u w = true :=
  equal_iff.mpr ⟨(equal_iff.mp h).1, alike_trans (equal_iff.mp h).2 (equal_iff.mp k).2⟩

end TrafficIndicator.Value
