import Mathlib.Data.Set.Card
import TrafficIndicator.Proofs.Endings
import TrafficIndicator.Proofs.RoundedTime
import TrafficIndicator.Proofs.TimerQueue
import TrafficIndicator.Time.Scale

/-!
A history lists what was pushed, cancelled and taken, the latest first. Jobs that queue and
cancel other jobs while they run, and jobs that halt, only add to it. Whatever the history,
each entry that was pushed either still waits, or was taken once, or was cancelled while it
waited; and what is taken comes first among all that wait.
-/
namespace TrafficIndicator

/-- Of any two of these times, one comes before the other or they fall together, and a time
is up to those that do not come before it. -/
structure TimeScale.Orders {τ : Type} [TimeScale τ] (finite : τ → Prop) : Prop where
  asymm : ∀ a b, finite a → finite b → before a b = true → before b a = false
  compares : ∀ a b c, finite a → finite b → finite c → before a b = false →
    before b c = false → before a c = false
  upTo_eq : ∀ a b, finite a → finite b → upTo a b = !before b a

theorem TimeScale.orders_exact : TimeScale.Orders (fun _ : Rat => True) where
  asymm a b _ _ h := by
    have hab : a < b := of_decide_eq_true h
    exact decide_eq_false (Rat.not_lt.mpr (Rat.le_of_lt hab))
  compares a b c _ _ _ h k := by
    have hba : b ≤ a := Rat.not_lt.mp (of_decide_eq_false h)
    have hcb : c ≤ b := Rat.not_lt.mp (of_decide_eq_false k)
    exact decide_eq_false (Rat.not_lt.mpr (Rat.le_trans hcb hba))
  upTo_eq a b _ _ := by
    have hiff : a ≤ b ↔ ¬ b < a := Rat.not_lt.symm
    change decide (a ≤ b) = !decide (b < a)
    rw [decide_eq_decide.mpr hiff, decide_not]

/-- In the time of the program all numbers are ordered, infinities included. -/
theorem TimeScale.orders_rounded : TimeScale.Orders (fun t : Float => t.isNaN = false) where
  asymm a b ha hb h :=
    decide_eq_false ((Rounded.not_lt_iff hb ha).mpr (Rounded.le_of_lt (of_decide_eq_true h)))
  compares a b c ha hb hc h k := by
    have hba : b ≤ a := (Rounded.not_lt_iff ha hb).mp (of_decide_eq_false h)
    have hcb : c ≤ b := (Rounded.not_lt_iff hb hc).mp (of_decide_eq_false k)
    exact decide_eq_false ((Rounded.not_lt_iff ha hc).mpr (Rounded.le_trans hc hb ha hcb hba))
  upTo_eq a b ha hb := by
    change decide (a ≤ b) = !decide (b < a)
    rw [decide_eq_decide.mpr (Rounded.not_lt_iff hb ha).symm, decide_not]

theorem TimeScale.Orders.imp {τ : Type} [TimeScale τ] {finite number : τ → Prop}
    (ho : TimeScale.Orders number) (h : ∀ t, finite t → number t) : TimeScale.Orders finite where
  asymm a b ha hb := ho.asymm a b (h a ha) (h b hb)
  compares a b c ha hb hc := ho.compares a b c (h a ha) (h b hb) (h c hc)
  upTo_eq a b ha hb := ho.upTo_eq a b (h a ha) (h b hb)

namespace Queue

variable {τ κ : Type}

inductive Event (τ κ : Type) where
  | pushed (e : Entry τ κ)
  | cancelled (token : Nat)
  | taken (e : Entry τ κ)

def pushed : List (Event τ κ) → List (Entry τ κ)
  | [] => []
  | .pushed e :: past => e :: pushed past
  | .cancelled _ :: past => pushed past
  | .taken _ :: past => pushed past

def taken : List (Event τ κ) → List (Entry τ κ)
  | [] => []
  | .pushed _ :: past => taken past
  | .cancelled _ :: past => taken past
  | .taken e :: past => e :: taken past

/-- The token was cancelled when an entry of it had been pushed and not been taken. -/
def Withdrawn (past : List (Event τ κ)) (token : Nat) : Prop :=
  ∃ older, .cancelled token :: older <:+ past ∧ token ∈ (pushed older).map Entry.token ∧
    token ∉ (taken older).map Entry.token

variable {past : List (Event τ κ)} {token : Nat}

theorem withdrawn_cons {x : Event τ κ} :
    Withdrawn (x :: past) token ↔
      (x = .cancelled token ∧ token ∈ (pushed past).map Entry.token ∧
        token ∉ (taken past).map Entry.token) ∨ Withdrawn past token := by
  constructor
  · rintro ⟨older, hs, hp, ht⟩
    rcases List.suffix_cons_iff.mp hs with heq | hs
    · obtain ⟨rfl, rfl⟩ := List.cons.inj heq
      exact Or.inl ⟨rfl, hp, ht⟩
    · exact Or.inr ⟨older, hs, hp, ht⟩
  · rintro (⟨rfl, hp, ht⟩ | ⟨older, hs, hp, ht⟩)
    · exact ⟨past, List.suffix_refl _, hp, ht⟩
    · exact ⟨older, hs.trans (List.suffix_cons x past), hp, ht⟩

theorem pushed_append (newer older : List (Event τ κ)) :
    pushed (newer ++ older) = pushed newer ++ pushed older := by
  induction newer with
  | nil => rfl
  | cons x newer ih =>
    cases x with
    | pushed e => exact congrArg (e :: ·) ih
    | cancelled | taken => exact ih

theorem Withdrawn.pushed (h : Withdrawn past token) :
    ∃ e ∈ pushed past, e.token = token := by
  obtain ⟨older, ⟨newer, rfl⟩, hp, -⟩ := h
  obtain ⟨e, he, ht⟩ := List.mem_map.mp hp
  refine ⟨e, ?_, ht⟩
  rw [pushed_append]
  exact List.mem_append_right _ he

/-- A queue that came to be by what the history lists. Looking for an entry that is due, and
for the next deadline, may drop cancelled entries and leaves no trace. -/
inductive Past [TimeScale τ] : List (Event τ κ) → Queue τ κ → Prop where
  | empty : Past [] {}
  | push {past : List (Event τ κ)} {q : Queue τ κ} (h : Past past q) (deadline : τ) (job : κ) :
      Past (.pushed ⟨deadline, q.nextToken, job⟩ :: past) (q.push deadline job).2
  | cancel {past : List (Event τ κ)} {q : Queue τ κ} (h : Past past q) (token : Nat) :
      Past (.cancelled token :: past) (q.cancel token)
  | take {past : List (Event τ κ)} {q r : Queue τ κ} {now : τ} {e : Entry τ κ}
      (h : Past past q) (ht : q.takeDue now = (some e, r)) : Past (.taken e :: past) r
  | idle {past : List (Event τ κ)} {q r : Queue τ κ} {now : τ} (h : Past past q)
      (ht : q.takeDue now = (none, r)) : Past past r
  | settle {past : List (Event τ κ)} {q : Queue τ κ} (h : Past past q) : Past past q.settle

variable {q r : Queue τ κ}

theorem live_cancel (q : Queue τ κ) (token : Nat) :
    (q.cancel token).live = q.live.filter fun e => decide (e.token ≠ token) := by
  rw [cancel]
  split
  · rw [live, live, List.filter_filter]
    refine List.filter_congr fun e _ => ?_
    by_cases h : e.token = token
    · simp [h]
    · simp [h]
  · rename_i h
    symm
    refine List.filter_eq_self.mpr fun e he => decide_eq_true ?_
    rintro rfl
    obtain ⟨hm, hc⟩ := mem_live.mp he
    exact h (by simpa [holds, hc] using ⟨e, hm, rfl⟩)

/-- Each entry that was pushed waits, was taken, or is one of the withdrawn. -/
structure Accounted (past : List (Event τ κ)) (q : Queue τ κ) (withdrawn : List (Entry τ κ)) :
    Prop where
  sound : q.Sound
  distinct : ((pushed past).map Entry.token).Nodup
  issued : ∀ e ∈ pushed past, e.token < q.nextToken
  balance : (q.live ++ taken past ++ withdrawn).Perm (pushed past)
  mem_withdrawn : ∀ e ∈ pushed past, e ∈ withdrawn ↔ Withdrawn past e.token

namespace Accounted

variable {withdrawn : List (Entry τ κ)}

theorem mem_pushed (h : Accounted past q withdrawn) {e : Entry τ κ} :
    e ∈ pushed past ↔ e ∈ q.live ∨ e ∈ taken past ∨ e ∈ withdrawn := by
  rw [← h.balance.mem_iff, List.mem_append, List.mem_append, or_assoc]

theorem entry_unique (h : Accounted past q withdrawn) {e f : Entry τ κ} (he : e ∈ pushed past)
    (hf : f ∈ pushed past) (ht : e.token = f.token) : e = f :=
  List.inj_on_of_nodup_map h.distinct he hf ht

theorem tokens_nodup (h : Accounted past q withdrawn) :
    (q.live.map Entry.token ++ (taken past).map Entry.token ++
      withdrawn.map Entry.token).Nodup := by
  rw [← List.map_append, ← List.map_append]
  exact (h.balance.map Entry.token).nodup_iff.mpr h.distinct

theorem live_not_taken (h : Accounted past q withdrawn) {e : Entry τ κ} (he : e ∈ q.live) :
    e.token ∉ (taken past).map Entry.token := by
  have hd := (List.nodup_append.mp (List.nodup_append.mp h.tokens_nodup).1).2.2
  intro ht
  exact hd _ (List.mem_map_of_mem he) _ ht rfl

theorem cancel (h : Accounted past q withdrawn) (token : Nat) :
    Accounted (.cancelled token :: past) (q.cancel token)
      (q.live.filter (fun e => !decide (e.token ≠ token)) ++ withdrawn) := by
  have hnext : (q.cancel token).nextToken = q.nextToken := by
    rw [Queue.cancel]
    split <;> rfl
  refine ⟨sound_cancel h.sound token, h.distinct, ?_, ?_, ?_⟩
  · rw [hnext]
    exact h.issued
  · rw [live_cancel]
    -- what waited is what still waits together with what is withdrawn now
    have hsplit := List.filter_append_perm (fun e : Entry τ κ => decide (e.token ≠ token)) q.live
    refine List.Perm.trans ?_ ((hsplit.append_right (taken past ++ withdrawn)).trans ?_)
    · simp only [List.append_assoc]
      refine List.Perm.append_left _ ?_
      rw [← List.append_assoc, ← List.append_assoc]
      exact List.perm_append_comm.append_right _
    · rw [← List.append_assoc]
      exact h.balance
  · intro e he
    rw [withdrawn_cons, List.mem_append, h.mem_withdrawn e he, List.mem_filter]
    refine or_congr_left' fun hnw => ?_
    constructor
    · rintro ⟨hl, ht⟩
      have ht : e.token = token := by simpa using ht
      subst ht
      exact ⟨rfl, List.mem_map_of_mem he, h.live_not_taken hl⟩
    · rintro ⟨hx, -, ht⟩
      injection hx with hx
      subst hx
      refine ⟨?_, by simp⟩
      rcases h.mem_pushed.mp he with hl | hm | hw
      · exact hl
      · exact absurd (List.mem_map_of_mem hm) ht
      · exact absurd ((h.mem_withdrawn e he).mp hw) hnw

theorem of_live (h : Accounted past q withdrawn) (hs : r.Sound) (hl : r.live = q.live)
    (hn : r.nextToken = q.nextToken) : Accounted past r withdrawn where
  sound := hs
  distinct := h.distinct
  issued := by
    rw [hn]
    exact h.issued
  balance := by
    rw [hl]
    exact h.balance
  mem_withdrawn := h.mem_withdrawn

variable [TimeScale τ]

theorem push (h : Accounted past q withdrawn) (deadline : τ) (job : κ) :
    Accounted (.pushed ⟨deadline, q.nextToken, job⟩ :: past) (q.push deadline job).2 withdrawn := by
  have hnew : ∀ e ∈ pushed past, e.token ≠ q.nextToken := by
    intro e he
    exact Nat.ne_of_lt (h.issued e he)
  refine ⟨sound_push h.sound _ _, ?_, ?_, ?_, ?_⟩
  · refine List.nodup_cons.mpr ⟨?_, h.distinct⟩
    intro hm
    obtain ⟨e, he, ht⟩ := List.mem_map.mp hm
    exact hnew e he ht
  · intro e he
    rcases List.mem_cons.mp he with rfl | he
    · exact Nat.lt_succ_self _
    · exact Nat.lt_succ_of_lt (h.issued e he)
  · exact (((live_push h.sound deadline job).append_right _).append_right _).trans
      (h.balance.cons _)
  · intro e he
    rw [withdrawn_cons, or_iff_right (by rintro ⟨hx, -⟩; cases hx)]
    rcases List.mem_cons.mp he with rfl | he
    · constructor
      · intro hw
        exact absurd rfl (hnew _ (h.mem_pushed.mpr (Or.inr (Or.inr hw))))
      · intro hw
        obtain ⟨f, hf, ht⟩ := hw.pushed
        exact absurd ht (hnew f hf)
    · exact h.mem_withdrawn e he

theorem take {now : τ} {e : Entry τ κ} (h : Accounted past q withdrawn)
    (ht : q.takeDue now = (some e, r)) : Accounted (.taken e :: past) r withdrawn := by
  obtain ⟨hsound, hlive, -, hnext⟩ := takeDue_some h.sound ht
  refine ⟨hsound, h.distinct, ?_, ?_, ?_⟩
  · rw [hnext]
    exact h.issued
  · have hb := h.balance
    rw [hlive] at hb
    exact (List.perm_middle.append_right _).trans hb
  · intro f hf
    rw [withdrawn_cons, or_iff_right (by rintro ⟨hx, -⟩; cases hx)]
    exact h.mem_withdrawn f hf

end Accounted

variable [TimeScale τ]

theorem nextToken_takeDue {now : τ} {o : Option (Entry τ κ)} (ht : q.takeDue now = (o, r)) :
    r.nextToken = q.nextToken := by
  rw [takeDue] at ht
  dsimp only at ht
  split at ht
  · cases ht; rfl
  · split at ht <;> cases ht <;> rfl

theorem Past.accounted (h : Past past q) : ∃ withdrawn, Accounted past q withdrawn := by
  induction h with
  | empty =>
    refine ⟨[], sound_empty, List.nodup_nil, ?_, .refl _, ?_⟩ <;>
      exact fun e he => (List.not_mem_nil he).elim
  | push h deadline job ih =>
    obtain ⟨w, ih⟩ := ih
    exact ⟨w, ih.push deadline job⟩
  | cancel h token ih =>
    obtain ⟨w, ih⟩ := ih
    exact ⟨_, ih.cancel token⟩
  | take h ht ih =>
    obtain ⟨w, ih⟩ := ih
    exact ⟨w, ih.take ht⟩
  | idle h ht ih =>
    obtain ⟨w, ih⟩ := ih
    obtain ⟨hs, hl⟩ := takeDue_none ih.sound ht
    exact ⟨w, ih.of_live hs hl (nextToken_takeDue ht)⟩
  | settle h ih =>
    obtain ⟨w, ih⟩ := ih
    exact ⟨w, ih.of_live (sound_settle ih.sound) (live_settle ih.sound) rfl⟩

theorem Past.sound (h : Past past q) : q.Sound := by
  obtain ⟨w, ha⟩ := h.accounted
  exact ha.sound

theorem Past.taken_nodup (h : Past past q) : ((taken past).map Entry.token).Nodup := by
  obtain ⟨w, ha⟩ := h.accounted
  exact (List.nodup_append.mp (List.nodup_append.mp ha.tokens_nodup).1).2.1

theorem Past.taken_pushed (h : Past past q) : ∀ e ∈ taken past, e ∈ pushed past := by
  obtain ⟨w, ha⟩ := h.accounted
  intro e he
  exact ha.mem_pushed.mpr (Or.inr (Or.inl he))

theorem Past.not_taken_of_withdrawn (h : Past past q) (hw : Withdrawn past token) :
    ∀ e ∈ taken past, e.token ≠ token := by
  obtain ⟨w, ha⟩ := h.accounted
  intro e he ht
  obtain ⟨f, hf, hft⟩ := hw.pushed
  have hef : e = f := ha.entry_unique (h.taken_pushed e he) hf (ht.trans hft.symm)
  have hfw : f ∈ w := (ha.mem_withdrawn f hf).mpr (hft ▸ hw)
  have hd := (List.nodup_append.mp ha.tokens_nodup).2.2
  refine hd e.token (List.mem_append_right _ (List.mem_map_of_mem he)) f.token
    (List.mem_map_of_mem hfw) ?_
  rw [hef]

theorem Past.count (h : Past past q) :
    q.liveCount + (taken past).length + {t | Withdrawn past t}.ncard = (pushed past).length := by
  obtain ⟨w, ha⟩ := h.accounted
  -- every withdrawn token is that of one withdrawn entry
  have hset : {t | Withdrawn past t} = ((w.map Entry.token).toFinset : Set Nat) := by
    ext t
    simp only [Set.mem_ofPred_eq, List.coe_toFinset, List.mem_map]
    constructor
    · intro hw
      obtain ⟨e, he, rfl⟩ := hw.pushed
      exact ⟨e, (ha.mem_withdrawn e he).mpr hw, rfl⟩
    · rintro ⟨e, he, rfl⟩
      exact (ha.mem_withdrawn e (ha.mem_pushed.mpr (Or.inr (Or.inr he)))).mp he
  have hnodup : (w.map Entry.token).Nodup := (List.nodup_append.mp ha.tokens_nodup).2.1
  have hlen := ha.balance.length_eq
  rw [List.length_append, List.length_append] at hlen
  rw [hset, Set.ncard_coe_finset, List.toFinset_card_of_nodup hnodup, List.length_map]
  exact hlen

def Precedes (e f : Entry τ κ) : Prop :=
  TimeScale.before e.deadline f.deadline = true ∨
    (TimeScale.before f.deadline e.deadline = false ∧ e.token < f.token)

structure Sorted (finite : τ → Prop) (es : List (Entry τ κ)) : Prop where
  order : es.Pairwise Precedes
  finite : ∀ e ∈ es, finite e.deadline

variable {finite : τ → Prop}

theorem Sorted.sublist {es fs : List (Entry τ κ)} (h : Sorted finite es) (hs : fs.Sublist es) :
    Sorted finite fs :=
  ⟨h.order.sublist hs, fun e he => h.finite e (hs.subset he)⟩

theorem Sorted.before_all (ho : TimeScale.Orders finite) {e x : Entry τ κ} {xs : List (Entry τ κ)}
    (h : Sorted finite (x :: xs)) (he : finite e.deadline)
    (hb : TimeScale.before e.deadline x.deadline = true) :
    ∀ f ∈ x :: xs, TimeScale.before e.deadline f.deadline = true := by
  intro f hf
  rcases List.mem_cons.mp hf with rfl | hmem
  · exact hb
  · have hfx : finite x.deadline := h.finite x List.mem_cons_self
    have hff : finite f.deadline := h.finite f hf
    have hback : TimeScale.before f.deadline x.deadline = false := by
      rcases (List.pairwise_cons.mp h.order).1 f hmem with hlt | ⟨hle, -⟩
      · exact ho.asymm _ _ hfx hff hlt
      · exact hle
    by_contra hn
    have hc := ho.compares _ _ _ he hff hfx (by simpa using hn) hback
    rw [hb] at hc
    cases hc

/-- A new entry has the largest token, so it goes behind those that fall due with it. -/
theorem sorted_insert (ho : TimeScale.Orders finite) {e : Entry τ κ} {es : List (Entry τ κ)}
    (h : Sorted finite es) (he : finite e.deadline) (ht : ∀ f ∈ es, f.token < e.token) :
    Sorted finite (insert e es) := by
  refine ⟨?_, ?_⟩
  · induction es with
    | nil => exact List.pairwise_singleton _ _
    | cons x xs ih =>
      obtain ⟨hx, hxs⟩ := List.pairwise_cons.mp h.order
      rw [insert]
      split
      · rename_i hb
        refine List.pairwise_cons.mpr ⟨?_, h.order⟩
        exact fun f hf => Or.inl (h.before_all ho he hb f hf)
      · rename_i hb
        have hb : TimeScale.before e.deadline x.deadline = false := by simpa using hb
        refine List.pairwise_cons.mpr ⟨?_, ?_⟩
        · intro f hf
          rcases mem_insert.mp hf with rfl | hf
          · exact Or.inr ⟨hb, ht x List.mem_cons_self⟩
          · exact hx f hf
        · apply ih (h.sublist (List.sublist_cons_self x xs))
          intro f hf
          exact ht f (List.mem_cons_of_mem _ hf)
  · intro f hf
    rcases mem_insert.mp hf with rfl | hf
    · exact he
    · exact h.finite f hf

theorem takeDue_suffix {now : τ} {o : Option (Entry τ κ)} (h : q.Sound)
    (ht : q.takeDue now = (o, r)) : r.entries <:+ q.entries := by
  obtain ⟨es, cancelled, hd, ⟨-, rfl⟩ | ⟨e, rest, rfl, -, -, rfl⟩⟩ := takeDue_ok h ht
  · exact hd.suffix
  · exact (List.suffix_cons e rest).trans hd.suffix

theorem Past.sorted (ho : TimeScale.Orders finite) (h : Past past q)
    (hf : ∀ e ∈ pushed past, finite e.deadline) : Sorted finite q.entries := by
  induction h with
  | empty => exact ⟨List.Pairwise.nil, fun e he => (List.not_mem_nil he).elim⟩
  | push h deadline job ih =>
    have hold := ih fun e he => hf e (List.mem_cons_of_mem _ he)
    exact sorted_insert ho hold (hf _ List.mem_cons_self) h.sound.issued
  | cancel h token ih =>
    rw [entries_cancel]
    exact ih hf
  | take h ht ih => exact (ih hf).sublist (takeDue_suffix h.sound ht).sublist
  | idle h ht ih => exact (ih hf).sublist (takeDue_suffix h.sound ht).sublist
  | settle h ih =>
    exact (ih hf).sublist (dropped_dropCancelled _ h.sound.tidy).suffix.sublist

theorem precedes_of_takeDue {now : τ} {e : Entry τ κ} (hs : Sorted finite q.entries)
    (h : q.Sound) (ht : q.takeDue now = (some e, r)) :
    e ∈ q.live ∧ ∀ f ∈ q.live, f = e ∨ Precedes e f := by
  obtain ⟨-, hlive, -, -⟩ := takeDue_some h ht
  have hp : q.live.Pairwise Precedes := hs.order.sublist List.filter_sublist
  rw [hlive] at hp ⊢
  refine ⟨List.mem_cons_self, ?_⟩
  intro f hf
  rcases List.mem_cons.mp hf with rfl | hf
  · exact Or.inl rfl
  · exact Or.inr ((List.pairwise_cons.mp hp).1 f hf)

theorem head_late_of_takeDue {now : τ} (ht : q.takeDue now = (none, r)) {e : Entry τ κ}
    (he : r.entries.head? = some e) : TimeScale.upTo e.deadline now = false := by
  rw [takeDue] at ht
  dsimp only at ht
  split at ht
  · cases ht
    cases he
  · split at ht
    · rename_i hlate
      cases ht
      cases he
      simpa using hlate
    · cases ht

theorem late_of_takeDue (ho : TimeScale.Orders finite) {now : τ} (hn : finite now)
    (hs : Sorted finite r.entries) (ht : q.takeDue now = (none, r)) :
    ∀ e ∈ r.live, TimeScale.upTo e.deadline now = false := by
  intro e he
  have hmem := (mem_live.mp he).1
  have hfe := hs.finite e hmem
  cases hes : r.entries with
  | nil =>
    rw [hes] at hmem
    exact (List.not_mem_nil hmem).elim
  | cons x xs =>
    have hx : TimeScale.upTo x.deadline now = false := head_late_of_takeDue ht (by rw [hes]; rfl)
    rw [hes] at hmem
    rcases List.mem_cons.mp hmem with rfl | hmem
    · exact hx
    · have hfx : finite x.deadline := hs.finite x (by rw [hes]; exact List.mem_cons_self)
      have hord := hs.order
      rw [hes] at hord
      -- the first entry is not due, and the others come no earlier
      have hback : TimeScale.before e.deadline x.deadline = false := by
        rcases (List.pairwise_cons.mp hord).1 e hmem with hlt | ⟨hle, -⟩
        · exact ho.asymm _ _ hfx hfe hlt
        · exact hle
      rw [ho.upTo_eq _ _ hfx hn] at hx
      rw [ho.upTo_eq _ _ hfe hn]
      by_contra hne
      have hne : TimeScale.before now e.deadline = false := by simpa using hne
      have hc := ho.compares _ _ _ hn hfe hfx hne hback
      rw [hc] at hx
      cases hx

/-- Of a queue that has looked for what is due and found nothing, nothing that waits is due. -/
theorem Past.late_of_takeDue (ho : TimeScale.Orders finite) {now : τ} (h : Past past q)
    (hf : ∀ e ∈ pushed past, finite e.deadline) (hn : finite now)
    (ht : q.takeDue now = (none, r)) :
    ∀ e ∈ r.live, TimeScale.upTo e.deadline now = false :=
  Queue.late_of_takeDue ho hn ((h.idle ht).sorted ho hf) ht

end Queue

end TrafficIndicator
