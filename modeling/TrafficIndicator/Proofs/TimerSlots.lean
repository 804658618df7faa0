import TrafficIndicator.Proofs.TimerQueue
import TrafficIndicator.Timer.Slots

/-!
The jobs of a queue may belong to kinds. Slots are backed by a queue when the timers that
they hold are exactly the waiting entries of their kinds. Every operation whose cancellation
reaches the queue keeps this, and so does a timer that fires.
-/
namespace TrafficIndicator.Slots

variable {τ κ ν : Type} [DecidableEq ν]

theorem isArmed_iff {s : Slots ν} {kind : ν} :
    s.isArmed kind = true ↔ ∃ t, s.token? kind = some t := by
  rw [isArmed, Option.isSome_iff_exists]

theorem isArmed_eq_false {s : Slots ν} {kind : ν} :
    s.isArmed kind = false ↔ s.token? kind = none := by
  rw [isArmed, Option.isSome_eq_false_iff, Option.isNone_iff_eq_none]

theorem isArmed_disarm (reaches : Nat → Bool) (kind other : ν) (s : Slots ν) (q : Queue τ κ) :
    (s.disarm reaches kind q).1.isArmed other = (s.isArmed other && decide (other ≠ kind)) := by
  rw [isArmed, token?_disarm, isArmed]
  split <;> simp_all

theorem isArmed_arm [TimeScale τ] (reaches : Nat → Bool) (kind other : ν) (deadline : τ) (job : κ)
    (s : Slots ν) (q : Queue τ κ) :
    (s.arm reaches kind deadline job q).1.isArmed other =
      (s.isArmed other || decide (other = kind)) := by
  rw [isArmed, token?_arm, isArmed]
  split <;> simp_all

theorem token?_release (s : Slots ν) (kind other : ν) (token : Nat) :
    (s.release kind token).token? other =
      if other = kind ∧ s.token? kind = some token then none else s.token? other := by
  rw [release]
  by_cases h : s.token? kind = some token
  · rw [if_pos h]
    by_cases ho : other = kind
    · subst ho
      rw [token?_erase_self, if_pos ⟨rfl, h⟩]
    · rw [token?_erase_of_ne s ho, if_neg (fun hc => ho hc.1)]
  · rw [if_neg h, if_neg (fun hc => h hc.2)]

theorem disarmAll_keeps {P : Slots ν → Queue τ κ → Prop} {reaches : Nat → Bool}
    (step : ∀ s q kind, P s q → P (s.disarm reaches kind q).1 (s.disarm reaches kind q).2)
    {s : Slots ν} {q : Queue τ κ} (h : P s q) :
    P (s.disarmAll reaches q).1 (s.disarmAll reaches q).2 := by
  rw [disarmAll]
  generalize s.armed = l
  induction l generalizing s q with
  | nil => exact h
  | cons k l ih => exact ih (step s q k.1 h)

theorem token?_foldl_disarm (reaches : Nat → Bool) (l : List (ν × Nat)) (s : Slots ν)
    (q : Queue τ κ) (kind : ν) :
    (l.foldl (fun (s, q) (k, _) => s.disarm reaches k q) (s, q)).1.token? kind =
      if kind ∈ l.map Prod.fst then none else s.token? kind := by
  induction l generalizing s q with
  | nil => rfl
  | cons k l ih =>
    refine (ih (s.disarm reaches k.1 q).1 (s.disarm reaches k.1 q).2).trans ?_
    simp only [token?_disarm, List.map_cons, List.mem_cons]
    by_cases hl : kind ∈ l.map Prod.fst
    · rw [if_pos hl, if_pos (Or.inr hl)]
    · by_cases hk : kind = k.1
      · rw [if_neg hl, if_pos hk, if_pos (Or.inl hk)]
      · rw [if_neg hl, if_neg hk, if_neg (not_or.mpr ⟨hk, hl⟩)]

theorem token?_disarmAll (reaches : Nat → Bool) (s : Slots ν) (q : Queue τ κ) (kind : ν) :
    (s.disarmAll reaches q).1.token? kind = none := by
  rw [disarmAll, token?_foldl_disarm]
  split
  · rfl
  · rename_i h
    rw [token?, List.lookup_eq_none_iff]
    intro p hp
    exact bne_iff_ne.mpr fun he => h (List.mem_map.mpr ⟨p, hp, he.symm⟩)

theorem eq_empty {s : Slots ν} (h : ∀ kind, s.token? kind = none) : s = {} := by
  obtain ⟨armed⟩ := s
  cases armed with
  | nil => rfl
  | cons p ps =>
    have hp := h p.1
    rw [token?, List.lookup_cons_self] at hp
    cases hp

theorem disarmAll_empty (reaches : Nat → Bool) (s : Slots ν) (q : Queue τ κ) :
    (s.disarmAll reaches q).1 = {} :=
  eq_empty (token?_disarmAll reaches s q)

structure Backed (kindOf : κ → Option ν) (s : Slots ν) (q : Queue τ κ) : Prop where
  queued : ∀ k t, s.token? k = some t → ∃ e ∈ q.live, e.token = t ∧ kindOf e.job = some k
  held : ∀ e ∈ q.live, ∀ k, kindOf e.job = some k → s.token? k = some e.token

variable {kindOf : κ → Option ν} {s : Slots ν} {q : Queue τ κ}

theorem backed_empty : Backed kindOf ({} : Slots ν) ({} : Queue τ κ) := by
  constructor <;> simp [token?, Queue.live]

omit [DecidableEq ν] in
private theorem kind_unique (kindOf : κ → Option ν) (hq : q.Sound) {e f : Entry τ κ}
    (he : e ∈ q.live) (hf : f ∈ q.live) (ht : e.token = f.token) :
    kindOf e.job = kindOf f.job := by
  rw [Queue.live_unique hq he hf ht]

theorem backed_disarm (hq : q.Sound) (h : Backed kindOf s q) (kind : ν) :
    Backed kindOf (s.disarm (fun _ => true) kind q).1 (s.disarm (fun _ => true) kind q).2 := by
  cases hs : s.token? kind with
  | none => simpa [disarm, hs] using h
  | some n =>
    have ht : ∀ k, (s.disarm (fun _ => true) kind q).1.token? k =
        if k = kind then none else s.token? k := fun k => token?_disarm _ kind k s q
    have hc : (s.disarm (fun _ => true) kind q).2 = q.cancel n := by simp [disarm, hs]
    obtain ⟨f, hf, rfl, hfk⟩ := h.queued kind n hs
    constructor
    · intro k t hk
      rw [ht] at hk
      split at hk
      · cases hk
      · rename_i hne
        obtain ⟨e, he, het, hek⟩ := h.queued k t hk
        refine ⟨e, ?_, het, hek⟩
        rw [hc, Queue.mem_live_cancel]
        refine ⟨he, fun hn => hne ?_⟩
        rw [kind_unique kindOf hq he hf hn, hfk] at hek
        exact (Option.some.inj hek).symm
    · intro e he k hk
      rw [hc, Queue.mem_live_cancel] at he
      have hheld := h.held e he.1 k hk
      rw [ht, hheld, if_neg]
      rintro rfl
      exact he.2 (Option.some.inj (hs.symm.trans hheld)).symm

theorem mem_live_disarm {reaches : Nat → Bool} {kind : ν} {e : Entry τ κ}
    (he : e ∈ (s.disarm reaches kind q).2.live) : e ∈ q.live := by
  rw [disarm] at he
  split at he
  · exact he
  · dsimp only at he
    split at he
    · exact (Queue.mem_live_cancel.mp he).1
    · exact he

theorem mem_live_disarm_iff (hq : q.Sound) (h : Backed kindOf s q) {kind : ν} {e : Entry τ κ} :
    e ∈ (s.disarm (fun _ => true) kind q).2.live ↔ e ∈ q.live ∧ kindOf e.job ≠ some kind := by
  constructor
  · intro he
    refine ⟨mem_live_disarm he, fun hk => ?_⟩
    have hheld := (backed_disarm hq h kind).held e he kind hk
    rw [token?_disarm, if_pos rfl] at hheld
    cases hheld
  · rintro ⟨he, hk⟩
    rw [disarm]
    cases ht : s.token? kind with
    | none => exact he
    | some n =>
      refine Queue.mem_live_cancel.mpr ⟨he, ?_⟩
      rintro rfl
      obtain ⟨f, hf, hft, hfk⟩ := h.queued kind _ ht
      rw [Queue.live_unique hq hf he hft] at hfk
      exact hk hfk

theorem sound_disarm (hq : q.Sound) (reaches : Nat → Bool) (kind : ν) :
    (s.disarm reaches kind q).2.Sound := by
  rw [disarm]
  split
  · exact hq
  · dsimp only
    split
    · exact Queue.sound_cancel hq _
    · exact hq

theorem entries_disarm (reaches : Nat → Bool) (kind : ν) (s : Slots ν) (q : Queue τ κ) :
    (s.disarm reaches kind q).2.entries = q.entries := by
  rw [disarm]
  split
  · rfl
  · dsimp only
    split
    · exact Queue.entries_cancel q _
    · rfl

section Arming

variable [TimeScale τ]

theorem sound_arm (hq : q.Sound) (reaches : Nat → Bool) (kind : ν) (deadline : τ) (job : κ) :
    (s.arm reaches kind deadline job q).2.Sound :=
  Queue.sound_push (sound_disarm hq reaches kind) deadline job

theorem mem_live_arm (hq : q.Sound) {reaches : Nat → Bool} {kind : ν} {deadline : τ} {job : κ}
    {e : Entry τ κ} :
    e ∈ (s.arm reaches kind deadline job q).2.live ↔
      e = ⟨deadline, q.nextToken, job⟩ ∨ e ∈ (s.disarm reaches kind q).2.live := by
  have hp := Queue.live_push (sound_disarm (s := s) hq reaches kind) deadline job
  rw [nextToken_disarm] at hp
  exact hp.mem_iff.trans List.mem_cons

theorem backed_arm (hq : q.Sound) (h : Backed kindOf s q) {kind : ν} {job : κ}
    (hj : kindOf job = some kind) (deadline : τ) :
    Backed kindOf (s.arm (fun _ => true) kind deadline job q).1
      (s.arm (fun _ => true) kind deadline job q).2 := by
  have hd := backed_disarm hq h kind
  have htd : ∀ k, (s.disarm (fun _ => true) kind q).1.token? k =
      if k = kind then none else s.token? k := fun k => token?_disarm _ kind k s q
  constructor
  · intro k t hk
    rw [token?_arm] at hk
    split at hk
    · rename_i he
      subst he
      refine ⟨⟨deadline, q.nextToken, job⟩, (mem_live_arm hq).mpr (Or.inl rfl), ?_, hj⟩
      exact Option.some.inj hk
    · rename_i hne
      obtain ⟨e, he, het, hek⟩ := hd.queued k t (by rw [htd, if_neg hne]; exact hk)
      exact ⟨e, (mem_live_arm hq).mpr (Or.inr he), het, hek⟩
  · intro e he k hk
    rw [token?_arm]
    rcases (mem_live_arm hq).mp he with rfl | he
    · rw [if_pos (Option.some.inj (hk.symm.trans hj))]
    · have hheld := hd.held e he k hk
      rw [htd] at hheld
      split at hheld
      · cases hheld
      · rename_i hne
        rw [if_neg hne]
        exact hheld

end Arming

theorem backed_release {r : Queue τ κ} {e : Entry τ κ} {kind : ν} (hq : q.Sound)
    (h : Backed kindOf s q) (hl : q.live = e :: r.live) (hk : kindOf e.job = some kind) :
    Backed kindOf (s.release kind e.token) r := by
  have he : e ∈ q.live := by rw [hl]; exact List.mem_cons_self
  have hheld := h.held e he kind hk
  have hlive : ∀ f ∈ r.live, f ∈ q.live ∧ f.token ≠ e.token := by
    intro f hf
    have hd := Queue.live_distinct hq
    rw [hl, List.map_cons, List.nodup_cons] at hd
    constructor
    · rw [hl]
      exact List.mem_cons_of_mem _ hf
    · intro ht
      apply hd.1
      rw [← ht]
      exact List.mem_map_of_mem hf
  constructor
  · intro k t hs
    rw [token?_release] at hs
    split at hs
    · cases hs
    · rename_i hne
      obtain ⟨f, hf, hft, hfk⟩ := h.queued k t hs
      rw [hl] at hf
      rcases List.mem_cons.mp hf with rfl | hf
      · rw [hk] at hfk
        exact absurd ⟨(Option.some.inj hfk).symm, hheld⟩ hne
      · exact ⟨f, hf, hft, hfk⟩
  · intro f hf k hfk
    obtain ⟨hfq, hne⟩ := hlive f hf
    have hs := h.held f hfq k hfk
    rw [token?_release, if_neg, hs]
    rintro ⟨rfl, ht⟩
    exact hne (Option.some.inj (hs.symm.trans ht))

/-- As many entries wait as kinds are armed, when each entry is a timer of some kind. -/
theorem liveCount_of_backed (hq : q.Sound) (h : Backed kindOf s q)
    (howned : ∀ e ∈ q.live, ∃ k, kindOf e.job = some k) {kinds : List ν} (hn : kinds.Nodup)
    (hall : ∀ k, k ∈ kinds) : q.liveCount = (kinds.filter s.isArmed).length := by
  have hlive : (q.live.map fun e => kindOf e.job).Nodup := by
    refine List.Nodup.map_on ?_ (Queue.live_distinct hq).of_map
    intro e he f hf hef
    obtain ⟨k, hk⟩ := howned e he
    have hte := h.held e he k hk
    have htf := h.held f hf k (hef ▸ hk)
    exact Queue.live_unique hq he hf (Option.some.inj (hte.symm.trans htf))
  have harmed : ((kinds.filter s.isArmed).map some).Nodup :=
    (hn.filter _).map fun _ _ => Option.some.inj
  have hperm : (q.live.map fun e => kindOf e.job).Perm ((kinds.filter s.isArmed).map some) := by
    refine (List.perm_ext_iff_of_nodup hlive harmed).mpr fun o => ?_
    simp only [List.mem_map, List.mem_filter]
    constructor
    · rintro ⟨e, he, rfl⟩
      obtain ⟨k, hk⟩ := howned e he
      exact ⟨k, ⟨hall k, isArmed_iff.mpr ⟨_, h.held e he k hk⟩⟩, hk.symm⟩
    · rintro ⟨k, ⟨-, hk⟩, rfl⟩
      obtain ⟨t, ht⟩ := isArmed_iff.mp hk
      obtain ⟨e, he, -, hek⟩ := h.queued k t ht
      exact ⟨e, he, hek⟩
  have hlen := hperm.length_eq
  rwa [List.length_map, List.length_map] at hlen

end TrafficIndicator.Slots
