import TrafficIndicator.Timer.Loop

/-!
An activity is opened bind by bind. `Ends P R` says what holds at either ending: `P` when the
activity comes to its end, and `R` of the halt and the state when it halts. A property of the
loop that each part keeps is kept by the whole.
-/
namespace TrafficIndicator.Loop

variable {τ κ ω α β γ : Type}

theorem bind_ok {x : Act τ κ ω α} {f : α → Act τ κ ω β} {l l' : Loop τ κ ω} {b : β} :
    (x >>= f) l = .ok b l' ↔ ∃ a m, x l = .ok a m ∧ f a m = .ok b l' := by
  change EStateM.bind x f l = _ ↔ _
  rw [EStateM.bind]
  cases x l with
  | ok a m =>
    constructor
    · intro h; exact ⟨a, m, rfl, h⟩
    · rintro ⟨_, _, h, hf⟩; cases h; exact hf
  | error h m => simp

theorem pure_ok {a b : α} {l l' : Loop τ κ ω} :
    (pure a : Act τ κ ω α) l = .ok b l' ↔ b = a ∧ l' = l := by
  change EStateM.Result.ok a l = .ok b l' ↔ _
  simp [eq_comm]

theorem get_ok {l l' m : Loop τ κ ω} :
    (get : Act τ κ ω _) l = .ok m l' ↔ m = l ∧ l' = l := by
  change EStateM.Result.ok l l = .ok m l' ↔ _
  simp [eq_comm]

theorem get_bind_ok {f : Loop τ κ ω → Act τ κ ω β} {l l' : Loop τ κ ω} {b : β} :
    (get >>= f) l = .ok b l' ↔ f l l = .ok b l' :=
  Iff.rfl

theorem set_ok {l l' m : Loop τ κ ω} {u : PUnit} :
    (set m : Act τ κ ω PUnit) l = .ok u l' ↔ l' = m := by
  change EStateM.Result.ok PUnit.unit m = .ok u l' ↔ _
  simp [eq_comm]

theorem modify_ok {f : Loop τ κ ω → Loop τ κ ω} {l l' : Loop τ κ ω} {u : PUnit} :
    (modify f : Act τ κ ω PUnit) l = .ok u l' ↔ l' = f l := by
  change EStateM.Result.ok PUnit.unit (f l) = .ok u l' ↔ _
  simp [eq_comm]

theorem throw_ok {h : Halt} {l l' : Loop τ κ ω} {a : α} :
    (throw h : Act τ κ ω α) l = .ok a l' ↔ False := by
  change EStateM.Result.error h l = .ok a l' ↔ _
  simp

/-- `P` holds where a run came to its end, and `R` where it halted. -/
def EndsIn (P : Loop τ κ ω → Prop) (R : Halt → Loop τ κ ω → Prop) :
    EStateM.Result Halt (Loop τ κ ω) α → Prop
  | .ok _ m => P m
  | .error h m => R h m

def Ends (P : Loop τ κ ω → Prop) (R : Halt → Loop τ κ ω → Prop) (x : Act τ κ ω α) : Prop :=
  ∀ l, P l → EndsIn P R (x l)

variable {M P : Loop τ κ ω → Prop} {R : Halt → Loop τ κ ω → Prop}

theorem EndsIn.imp {P' : Loop τ κ ω → Prop} {R' : Halt → Loop τ κ ω → Prop}
    {r : EStateM.Result Halt (Loop τ κ ω) α} (h : EndsIn P R r) (hp : ∀ m, P m → P' m)
    (hr : ∀ e m, R e m → R' e m) : EndsIn P' R' r := by
  cases r with
  | ok a m => exact hp m h
  | error e m => exact hr e m h

theorem EndsIn.total {x : Act τ κ ω Unit} {l : Loop τ κ ω} (h : EndsIn P R (x l))
    (hr : ∀ e m, ¬R e m) : ∃ m, x l = .ok () m := by
  cases hx : x l with
  | ok u m => exact ⟨m, rfl⟩
  | error e m =>
    rw [hx] at h
    exact absurd h (hr e m)

theorem bind_of_ok {x : Act τ κ ω α} {f : α → Act τ κ ω β} {l m : Loop τ κ ω} {a : α}
    (h : x l = .ok a m) : (x >>= f) l = f a m := by
  change EStateM.bind x f l = _
  rw [EStateM.bind, h]

theorem bind_of_error {x : Act τ κ ω α} {f : α → Act τ κ ω β} {l m : Loop τ κ ω} {e : Halt}
    (h : x l = .error e m) : (x >>= f) l = .error e m := by
  change EStateM.bind x f l = _
  rw [EStateM.bind, h]

theorem bind_get {f : Loop τ κ ω → Act τ κ ω β} {l : Loop τ κ ω} : (get >>= f) l = f l l := rfl

theorem endsIn_bind {x : Act τ κ ω α} {f : α → Act τ κ ω β} {l : Loop τ κ ω}
    (hx : EndsIn M R (x l)) (hf : ∀ a m, M m → EndsIn P R (f a m)) :
    EndsIn P R ((x >>= f) l) := by
  change EndsIn P R (EStateM.bind x f l)
  rw [EStateM.bind]
  cases hxl : x l with
  | ok a m =>
    rw [hxl] at hx
    exact hf a m hx
  | error e m =>
    rw [hxl] at hx
    exact hx

theorem ends_pure (a : α) : Ends P R (pure a : Act τ κ ω α) := fun _ hp => hp

theorem ends_bind {x : Act τ κ ω α} {f : α → Act τ κ ω β} (hx : Ends P R x)
    (hf : ∀ a, Ends P R (f a)) : Ends P R (x >>= f) :=
  fun l hp => endsIn_bind (hx l hp) hf

theorem ends_get : Ends P R (get : Act τ κ ω _) := fun _ hp => hp

theorem ends_modify {f : Loop τ κ ω → Loop τ κ ω} (h : ∀ l, P l → P (f l)) :
    Ends P R (modify f : Act τ κ ω PUnit) := h

theorem ends_modifyHost {f : ω → ω} (h : ∀ l, P l → P { l with host := f l.host }) :
    Ends P R (modifyHost f : Act τ κ ω Unit) := h

theorem ends_throw {e : Halt} (h : ∀ l, P l → R e l) : Ends P R (throw e : Act τ κ ω α) := h

theorem ends_ite {c : Prop} [Decidable c] {x y : Act τ κ ω α} (hx : Ends P R x)
    (hy : Ends P R y) : Ends P R (if c then x else y) := by
  split
  · exact hx
  · exact hy

theorem ends_elim {o : Option γ} {f : γ → Act τ κ ω PUnit}
    (h : ∀ c, o = some c → Ends P R (f c)) : Ends P R (o.elim (pure ()) f) := by
  cases o with
  | none => exact ends_pure _
  | some c => exact h c rfl

theorem ends_forM {f : γ → Act τ κ ω PUnit} (xs : List γ) (h : ∀ x ∈ xs, Ends P R (f x)) :
    Ends P R (xs.forM f) := by
  induction xs with
  | nil => exact ends_pure _
  | cons x xs ih =>
    have hrest : Ends P R (xs.forM f) := by
      apply ih
      intro y hy
      exact h y (List.mem_cons_of_mem _ hy)
    exact ends_bind (h x List.mem_cons_self) fun _ => hrest

theorem ends_mapM {f : γ → Act τ κ ω β} (xs : List γ) (h : ∀ x ∈ xs, Ends P R (f x)) :
    Ends P R (xs.mapM f) := by
  induction xs with
  | nil => exact ends_pure _
  | cons x xs ih =>
    have hrest : Ends P R (xs.mapM f) := by
      apply ih
      intro y hy
      exact h y (List.mem_cons_of_mem _ hy)
    rw [List.mapM_cons]
    refine ends_bind (h x List.mem_cons_self) fun b => ?_
    exact ends_bind hrest fun bs => ends_pure (b :: bs)

def Yields (Q : α → Loop τ κ ω → Prop) (R : Halt → Loop τ κ ω → Prop) :
    EStateM.Result Halt (Loop τ κ ω) α → Prop
  | .ok a m => Q a m
  | .error h m => R h m

variable {Q : α → Loop τ κ ω → Prop} {Q' : β → Loop τ κ ω → Prop}

theorem EndsIn.yields {r : EStateM.Result Halt (Loop τ κ ω) α} (h : EndsIn P R r) :
    Yields (fun _ => P) R r := by
  cases r with
  | ok a m => exact h
  | error e m => exact h

theorem yields_bind {x : Act τ κ ω α} {f : α → Act τ κ ω β} {l : Loop τ κ ω}
    (hx : Yields Q R (x l)) (hf : ∀ a m, Q a m → Yields Q' R (f a m)) :
    Yields Q' R ((x >>= f) l) := by
  change Yields Q' R (EStateM.bind x f l)
  rw [EStateM.bind]
  cases hxl : x l with
  | ok a m =>
    rw [hxl] at hx
    exact hf a m hx
  | error e m =>
    rw [hxl] at hx
    exact hx

theorem Yields.endsIn {x : Act τ κ ω α} {f : α → Act τ κ ω β} {l : Loop τ κ ω}
    (hx : Yields Q R (x l)) (hf : ∀ a m, Q a m → EndsIn P R (f a m)) :
    EndsIn P R ((x >>= f) l) := by
  have h : Yields (fun _ => P) R ((x >>= f) l) :=
    yields_bind hx fun a m hm => (hf a m hm).yields
  cases hr : (x >>= f) l with
  | ok b m =>
    rw [hr] at h
    exact h
  | error e m =>
    rw [hr] at h
    exact h

def Keeps (P : Loop τ κ ω → Prop) (x : Act τ κ ω α) : Prop :=
  ∀ l a l', x l = .ok a l' → P l → P l'

theorem Ends.keeps {x : Act τ κ ω α} (h : Ends P R x) : Keeps P x := by
  intro l a l' hx hp
  have he := h l hp
  rw [hx] at he
  exact he

theorem Keeps.ends {x : Act τ κ ω α} (h : Keeps P x) : Ends P (fun _ _ => True) x := by
  intro l hp
  cases hx : x l with
  | ok a m => exact h l a m hx hp
  | error e m => trivial

theorem keeps_pure (a : α) : Keeps P (pure a : Act τ κ ω α) :=
  Ends.keeps (R := fun _ _ => True) (ends_pure a)

theorem keeps_bind {x : Act τ κ ω α} {f : α → Act τ κ ω β} (hx : Keeps P x)
    (hf : ∀ a, Keeps P (f a)) : Keeps P (x >>= f) :=
  (ends_bind hx.ends fun a => (hf a).ends).keeps

theorem keeps_modify {f : Loop τ κ ω → Loop τ κ ω} (h : ∀ l, P l → P (f l)) :
    Keeps P (modify f : Act τ κ ω PUnit) :=
  Ends.keeps (R := fun _ _ => True) (ends_modify h)

theorem keeps_elim {o : Option γ} {f : γ → Act τ κ ω PUnit}
    (h : ∀ c, o = some c → Keeps P (f c)) : Keeps P (o.elim (pure ()) f) :=
  (ends_elim fun c hc => (h c hc).ends).keeps

theorem keeps_forM {f : γ → Act τ κ ω PUnit} (xs : List γ) (h : ∀ x ∈ xs, Keeps P (f x)) :
    Keeps P (xs.forM f) :=
  (ends_forM xs fun x hx => (h x hx).ends).keeps

theorem keeps_mapM {f : γ → Act τ κ ω β} (xs : List γ) (h : ∀ x ∈ xs, Keeps P (f x)) :
    Keeps P (xs.mapM f) :=
  (ends_mapM xs fun x hx => (h x hx).ends).keeps

end TrafficIndicator.Loop
