import Mathlib.Data.List.Nodup
import TrafficIndicator.Timer.Queue

/-!
Every queued entry has a token of its own, and only queued tokens are remembered as
cancelled. From this each operation's effect on the entries that still wait is exact:
pushing adds one, cancelling takes one away, and taking what is due removes the first.
-/
namespace TrafficIndicator.Queue

variable {τ κ : Type}

structure Tidy (es : List (Entry τ κ)) (cancelled : List Nat) : Prop where
  distinct : (es.map Entry.token).Nodup
  once : cancelled.Nodup
  queued : ∀ t ∈ cancelled, ∃ e ∈ es, e.token = t

structure Sound (q : Queue τ κ) : Prop where
  tidy : Tidy q.entries q.cancelled
  issued : ∀ e ∈ q.entries, e.token < q.nextToken

theorem Sound.cancelled_issued {q : Queue τ κ} (h : q.Sound) {t : Nat} (ht : t ∈ q.cancelled) :
    t < q.nextToken := by
  obtain ⟨e, he, rfl⟩ := h.tidy.queued t ht
  exact h.issued e he

theorem sound_empty : Sound ({} : Queue τ κ) := by
  refine ⟨⟨List.nodup_nil, List.nodup_nil, ?_⟩, ?_⟩ <;> simp

theorem Tidy.entry_unique {es : List (Entry τ κ)} {cancelled : List Nat} (h : Tidy es cancelled)
    {e f : Entry τ κ} (he : e ∈ es) (hf : f ∈ es) (ht : e.token = f.token) : e = f :=
  List.inj_on_of_nodup_map h.distinct he hf ht

theorem live_unique {q : Queue τ κ} (h : q.Sound) {e f : Entry τ κ} (he : e ∈ q.live)
    (hf : f ∈ q.live) (ht : e.token = f.token) : e = f :=
  h.tidy.entry_unique (mem_live.mp he).1 (mem_live.mp hf).1 ht

theorem live_distinct {q : Queue τ κ} (h : q.Sound) : (q.live.map Entry.token).Nodup :=
  h.tidy.distinct.sublist (List.filter_sublist.map _)

section Pushing

variable [TimeScale τ]

theorem insert_perm (e : Entry τ κ) (es : List (Entry τ κ)) : (insert e es).Perm (e :: es) := by
  induction es with
  | nil => exact .refl _
  | cons x xs ih =>
    rw [insert]
    split
    · exact .refl _
    · exact (ih.cons x).trans (.swap e x xs)

theorem sound_push {q : Queue τ κ} (h : q.Sound) (deadline : τ) (job : κ) :
    (q.push deadline job).2.Sound := by
  have hp : (insert ⟨deadline, q.nextToken, job⟩ q.entries).Perm _ := insert_perm _ _
  refine ⟨⟨?_, h.tidy.once, ?_⟩, ?_⟩
  · refine (hp.map Entry.token).nodup_iff.mpr (List.nodup_cons.mpr ⟨?_, h.tidy.distinct⟩)
    intro hm
    obtain ⟨e, he, ht⟩ := List.mem_map.mp hm
    have hlt := h.issued e he
    rw [ht] at hlt
    exact Nat.lt_irrefl _ hlt
  · intro t ht
    obtain ⟨e, he, het⟩ := h.tidy.queued t ht
    exact ⟨e, mem_push.mpr (Or.inr he), het⟩
  · intro e he
    rcases mem_push.mp he with rfl | he
    · exact Nat.lt_succ_self _
    · exact Nat.lt_succ_of_lt (h.issued e he)

theorem live_push {q : Queue τ κ} (h : q.Sound) (deadline : τ) (job : κ) :
    (q.push deadline job).2.live.Perm (⟨deadline, q.nextToken, job⟩ :: q.live) := by
  have hn : q.nextToken ∉ q.cancelled := fun hc => Nat.lt_irrefl _ (h.cancelled_issued hc)
  refine ((insert_perm _ _).filter _).trans ?_
  rw [List.filter_cons_of_pos (by simpa [push] using hn)]
  exact .refl _

end Pushing

theorem entries_cancel (q : Queue τ κ) (token : Nat) : (q.cancel token).entries = q.entries := by
  rw [cancel]
  split <;> rfl

theorem sound_cancel {q : Queue τ κ} (h : q.Sound) (token : Nat) : (q.cancel token).Sound := by
  rw [cancel]
  split
  · rename_i hc
    simp only [holds, Bool.and_eq_true, List.any_eq_true, decide_eq_true_eq, Bool.not_eq_true',
      List.contains_eq_mem, decide_eq_false_iff_not] at hc
    refine ⟨⟨h.tidy.distinct, List.nodup_cons.mpr ⟨hc.2, h.tidy.once⟩, ?_⟩, h.issued⟩
    intro t ht
    rcases List.mem_cons.mp ht with rfl | ht
    · exact hc.1
    · exact h.tidy.queued t ht
  · exact h

section Dropping

variable {stop : Entry τ κ → Bool} {es : List (Entry τ κ)} {cancelled : List Nat}

private theorem tidy_tail {e : Entry τ κ} (h : Tidy (e :: es) cancelled) :
    Tidy es (cancelled.erase e.token) := by
  refine ⟨(List.nodup_cons.mp h.distinct).2, h.once.erase _, ?_⟩
  intro t ht
  obtain ⟨hne, ht⟩ := h.once.mem_erase_iff.mp ht
  obtain ⟨f, hf, rfl⟩ := h.queued t ht
  rcases List.mem_cons.mp hf with rfl | hf
  · exact absurd rfl hne
  · exact ⟨f, hf, rfl⟩

/-- Forgetting the token of the first entry changes nothing for the others. -/
private theorem waiting_tail {e f : Entry τ κ} (h : Tidy (e :: es) cancelled) (hf : f ∈ es) :
    f.token ∈ cancelled.erase e.token ↔ f.token ∈ cancelled := by
  have hne : f.token ≠ e.token := by
    intro ht
    apply (List.nodup_cons.mp h.distinct).1
    rw [← ht]
    exact List.mem_map_of_mem hf
  rw [h.once.mem_erase_iff, and_iff_right hne]

structure Dropped (stop : Entry τ κ → Bool) (es : List (Entry τ κ)) (cancelled : List Nat)
    (r : List (Entry τ κ) × List Nat) : Prop where
  tidy : Tidy r.1 r.2
  suffix : r.1 <:+ es
  waiting : r.1.filter (fun e => !r.2.contains e.token) =
    es.filter (fun e => !cancelled.contains e.token)
  front : ∀ e, r.1.head? = some e → stop e = true ∨ e.token ∉ r.2

theorem dropped_dropCancelled (stop : Entry τ κ → Bool) (h : Tidy es cancelled) :
    Dropped stop es cancelled (dropCancelled stop es cancelled) := by
  induction es generalizing cancelled with
  | nil => exact ⟨h, List.suffix_refl _, rfl, fun e he => nomatch he⟩
  | cons e es ih =>
    rw [dropCancelled]
    split
    · rename_i hs
      refine ⟨h, List.suffix_refl _, rfl, ?_⟩
      intro f hf
      cases hf
      simpa using hs
    · rename_i hs
      simp only [Bool.or_eq_true, Bool.not_eq_true', List.contains_eq_mem, decide_eq_false_iff_not,
        not_or, not_not] at hs
      have hd := ih (tidy_tail h)
      refine ⟨hd.tidy, hd.suffix.trans (List.suffix_cons e es), ?_, hd.front⟩
      rw [hd.waiting, List.filter_cons_of_neg (by simpa using hs.2)]
      refine List.filter_congr ?_
      intro f hf
      simp only [List.contains_eq_mem, waiting_tail h hf]

end Dropping

theorem Dropped.sound {q : Queue τ κ} (h : q.Sound) {stop : Entry τ κ → Bool}
    {r : List (Entry τ κ) × List Nat} (hd : Dropped stop q.entries q.cancelled r) :
    Sound { q with entries := r.1, cancelled := r.2 } :=
  ⟨hd.tidy, fun e he => h.issued e (hd.suffix.subset he)⟩

theorem sound_settle {q : Queue τ κ} (h : q.Sound) : q.settle.Sound :=
  (dropped_dropCancelled _ h.tidy).sound h

theorem live_settle {q : Queue τ κ} (h : q.Sound) : q.settle.live = q.live :=
  (dropped_dropCancelled _ h.tidy).waiting

section Taking

variable [TimeScale τ] {q r : Queue τ κ} {now : τ}

/-- The queue once cancelled entries that are due are dropped from its front: either nothing
is due in what is left, or its first entry is taken. -/
theorem takeDue_ok {o : Option (Entry τ κ)} (h : q.Sound) (ht : q.takeDue now = (o, r)) :
    ∃ es cancelled,
      Dropped (fun e => !TimeScale.upTo e.deadline now) q.entries q.cancelled (es, cancelled) ∧
      ((o = none ∧ r = { q with entries := es, cancelled := cancelled }) ∨
        ∃ e rest, es = e :: rest ∧ o = some e ∧ TimeScale.upTo e.deadline now = true ∧
          r = { q with entries := rest, cancelled := cancelled }) := by
  have hd := dropped_dropCancelled (fun e => !TimeScale.upTo e.deadline now) h.tidy
  rw [takeDue] at ht
  generalize dropCancelled (fun e : Entry τ κ => !TimeScale.upTo e.deadline now) q.entries
    q.cancelled = p at ht hd
  obtain ⟨es, cancelled⟩ := p
  refine ⟨es, cancelled, hd, ?_⟩
  cases es with
  | nil =>
    cases ht
    exact Or.inl ⟨rfl, rfl⟩
  | cons e rest =>
    cases hdue : TimeScale.upTo e.deadline now with
    | false =>
      simp only [hdue] at ht
      cases ht
      exact Or.inl ⟨rfl, rfl⟩
    | true =>
      simp only [hdue] at ht
      cases ht
      exact Or.inr ⟨e, rest, rfl, rfl, hdue, rfl⟩

theorem takeDue_none (h : q.Sound) (ht : q.takeDue now = (none, r)) :
    r.Sound ∧ r.live = q.live := by
  obtain ⟨es, cancelled, hd, ⟨-, rfl⟩ | ⟨e, rest, -, ho, -, -⟩⟩ := takeDue_ok h ht
  · exact ⟨hd.sound h, hd.waiting⟩
  · cases ho

/-- What is taken is the first entry that still waits, and the others go on waiting. -/
theorem takeDue_some {e : Entry τ κ} (h : q.Sound) (ht : q.takeDue now = (some e, r)) :
    r.Sound ∧ q.live = e :: r.live ∧ TimeScale.upTo e.deadline now = true ∧
      r.nextToken = q.nextToken := by
  obtain ⟨es, cancelled, hd, ⟨ho, -⟩ | ⟨f, rest, rfl, ho, hdue, rfl⟩⟩ := takeDue_ok h ht
  · cases ho
  · cases ho
    have hw : e.token ∉ cancelled := by
      rcases hd.front e rfl with hs | hs
      · simp [hdue] at hs
      · exact hs
    have htidy : Tidy rest cancelled := by
      have hrest := tidy_tail hd.tidy
      rwa [List.erase_of_not_mem hw] at hrest
    have hissued : ∀ f ∈ rest, f.token < q.nextToken := by
      intro f hf
      exact h.issued f (hd.suffix.subset (List.mem_cons_of_mem _ hf))
    have hlive := hd.waiting
    rw [List.filter_cons_of_pos (by simpa using hw)] at hlive
    exact ⟨⟨htidy, hissued⟩, hlive.symm, hdue, rfl⟩

end Taking

end TrafficIndicator.Queue
