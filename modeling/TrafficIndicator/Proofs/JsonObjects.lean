import TrafficIndicator.Proofs.KeyedEntries
import TrafficIndicator.World.Basic

/-!
A repeated key gives its entry a new value and no new entry, so the keys of an object that was
read are distinct, and so are those of a settings file.
-/
namespace TrafficIndicator

namespace Json

private theorem bind_ok {ε α β : Type} {x : Except ε α} {f : α → Except ε β} {b : β}
    (h : (x >>= f) = .ok b) : ∃ a, x = .ok a ∧ f a = .ok b := by
  cases x with
  | ok a => exact ⟨a, rfl, h⟩
  | error e => cases h

def KeyedObject : Value → Prop
  | .dict es => Keyed es
  | _ => True

theorem keyedObject_entries {limits : Limits} {turns depth : Nat}
    {earlier : List (LooseText × Value)} {cs rest : List Char} {v : Value} (h : Keyed earlier)
    (he : entries limits turns depth earlier cs = .ok (v, rest)) : KeyedObject v := by
  induction turns generalizing earlier cs with
  | zero => rw [entries] at he; cases he
  | succ turns ih =>
    unfold entries at he
    split at he
    · obtain ⟨⟨key, r⟩, -, he⟩ := bind_ok he
      dsimp only at he
      split at he
      · obtain ⟨⟨w, r⟩, -, he⟩ := bind_ok he
        dsimp only at he
        split at he
        · cases he
          exact Value.keyed_putEntry h key w
        · exact ih (Value.keyed_putEntry h key w) he
        · cases he
      · cases he
    · cases he

theorem keyedObject_items {limits : Limits} {turns depth : Nat} {earlier : List Value}
    {cs rest : List Char} {v : Value}
    (hi : items limits turns depth earlier cs = .ok (v, rest)) : KeyedObject v := by
  induction turns generalizing earlier cs with
  | zero => rw [items] at hi; cases hi
  | succ turns ih =>
    unfold items at hi
    obtain ⟨⟨w, r⟩, -, hi⟩ := bind_ok hi
    dsimp only at hi
    split at hi
    · cases hi
      trivial
    · exact ih hi
    · cases hi

theorem keyedObject_number {limits : Limits} {minus : Bool} {cs rest : List Char} {v : Value}
    (h : number limits minus cs = .ok (v, rest)) : KeyedObject v := by
  unfold number at h
  extract_lets whole at h
  split at h
  · cases h
  · dsimp only at h
    split at h
    · split at h
      · cases h
      · cases h
        trivial
    · cases h
      trivial

theorem keyedObject_name {cs rest : List Char} {v : Value} (h : name? cs = some (v, rest)) :
    KeyedObject v := by
  obtain ⟨⟨name, w⟩, hm, hw⟩ := List.exists_of_findSome?_eq_some h
  dsimp only at hw
  split at hw
  · cases hw
    have hall : ∀ p ∈ named, KeyedObject p.2 := by
      simp [named, KeyedObject, undefined]
    exact hall _ hm
  · cases hw

theorem keyedObject_value {limits : Limits} {turns depth : Nat} {cs rest : List Char} {v : Value}
    (h : value limits turns depth cs = .ok (v, rest)) : KeyedObject v := by
  unfold value at h
  split at h
  · cases h
  · cases h
  · split at h
    · obtain ⟨⟨t, r⟩, -, h⟩ := bind_ok h
      cases h
      trivial
    · split at h
      · split at h
        · cases h
        · split at h
          · cases h
            trivial
          · exact keyedObject_items h
      · split at h
        · split at h
          · cases h
          · split at h
            · cases h
              exact keyed_nil
            · exact keyedObject_entries keyed_nil h
        · split at h
          · rename_i found hn
            cases h
            exact keyedObject_name hn
          · split at h
            · exact keyedObject_number h
            · exact keyedObject_number h

theorem keyedObject_read {cs : List Char} {limits : Limits} {v : Value}
    (h : read cs limits = .ok v) : KeyedObject v := by
  obtain ⟨⟨w, rest⟩, hw, h⟩ := bind_ok h
  dsimp only at h
  split at h
  · cases h
    exact keyedObject_value hw
  · cases h

end Json

theorem Observed.outcome_ok {τ α : Type} {o : Observed τ α}
    (h : o.outcome.toOption.isSome = true) : ∃ a, o.outcome = .ok a := by
  cases ho : o.outcome with
  | ok a => exact ⟨a, rfl⟩
  | error f =>
    rw [ho] at h
    cases h

theorem World.keyed_settings {τ : Type} {w : World} {path : LooseText}
    {nesting : Option Nat} {es : List (LooseText × Value)}
    (h : (w.settings path nesting : Observed τ _).outcome = .ok (some es)) : Keyed es := by
  unfold World.settings at h
  split at h
  · cases h
  · cases h
  · cases h
  · split at h
    · cases h
    · split at h
      · cases h
      · cases h
      · cases h
      · rename_i hr
        cases h
        exact Json.keyedObject_read hr
      · cases h

end TrafficIndicator
