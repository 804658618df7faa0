import TrafficIndicator.Proofs.PanelOperations

/-!
Every cancellation reaches the loop and nothing else is queued on it. Then the waiting entries
are the armed timers, an attached and enabled indicator has its next tick armed, and one that
is detached has nothing to wait for.
-/
namespace TrafficIndicator.Panel

open Loop Indicator

variable {τ : Type} [TimeScale τ]

def ownKind : Job → Option TimerKind
  | .own kind => some kind
  | .poll .. => none

structure Alone (setup : Setup τ) : Prop where
  reaches : setup.reaches = fun _ => true
  settings : ∀ f ∈ setup.collaborators.settings, f ≠ .file
  connectivity : setup.collaborators.connectivity ≠ some .polled
  lock : setup.collaborators.lock ≠ some .polled

/-- The states of runs in which no operation halts and the loop belongs to the indicator. The
loop may look for due entries at any time and fires each that it takes; everything beside the
indicator, its slots and the queue may change. -/
inductive Driven : Running τ → Prop where
  | fresh {l : Running τ} (hi : l.host.owner.indicator = l.host.owner.indicator.fresh)
      (ht : l.host.owner.timers = {}) (hq : l.queue = {}) (hw : l.host.watches = []) : Driven l
  | operation {l l' : Running τ} {setup : Setup τ} (hs : Alone setup) (op : Operation)
      (h : Driven l) (hop : op.act setup l = .ok () l') : Driven l'
  | turn {l m l' : Running τ} {setup : Setup τ} (hs : Alone setup) {now : τ} {e : Entry τ Job}
      (h : Driven l) (htake : takeDue now l = .ok (some e) m) (hf : fire setup e m = .ok () l') :
      Driven l'
  | idle {l l' : Running τ} {now : τ} (h : Driven l) (htake : takeDue now l = .ok none l') :
      Driven l'
  | peek {l l' : Running τ} {d : Option τ} (h : Driven l) (hp : nextDeadline l = .ok d l') :
      Driven l'
  | around {l l' : Running τ} (h : Driven l)
      (hi : l'.host.owner.indicator = l.host.owner.indicator)
      (ht : timing l' = timing l) (hw : l'.host.watches = l.host.watches) : Driven l'

structure Wound (t : Slots TimerKind × Queue τ Job) : Prop where
  sound : t.2.Sound
  owned : ∀ e ∈ t.2.live, ∃ kind, ownKind e.job = some kind
  backed : t.1.Backed ownKind t.2

omit [TimeScale τ] in
theorem wound_empty : Wound ((({} : Slots TimerKind), ({} : Queue τ Job))) :=
  ⟨Queue.sound_empty, fun _ h => (List.not_mem_nil h).elim, Slots.backed_empty⟩

omit [TimeScale τ] in
theorem wound_disarm {s : Slots TimerKind} {q : Queue τ Job} (h : Wound (s, q))
    (kind : TimerKind) : Wound (s.disarm (fun _ => true) kind q) where
  sound := Slots.sound_disarm h.sound _ kind
  owned _ he := h.owned _ (Slots.mem_live_disarm he)
  backed := Slots.backed_disarm h.sound h.backed kind

theorem wound_arm {s : Slots TimerKind} {q : Queue τ Job} (h : Wound (s, q)) (kind : TimerKind)
    (deadline : τ) : Wound (s.arm (fun _ => true) kind deadline (.own kind) q) where
  sound := Slots.sound_arm h.sound _ kind deadline _
  owned e he := by
    rcases (Slots.mem_live_arm h.sound).mp he with rfl | he
    · exact ⟨kind, rfl⟩
    · exact (wound_disarm h kind).owned e he
  backed := Slots.backed_arm h.sound h.backed rfl deadline

theorem wound_serve {reaches : Nat → Bool} (hr : reaches = fun _ => true) {due : τ → τ}
    {t : Slots TimerKind × Queue τ Job} (h : Wound t) (r : Request τ) :
    Wound (r.serve reaches due t) := by
  subst hr
  cases r with
  | send | note => exact h
  | arm kind delay => exact wound_arm h kind _
  | disarm kind => exact wound_disarm h kind

theorem wound_foldl {reaches : Nat → Bool} (hr : reaches = fun _ => true) {due : τ → τ}
    {t : Slots TimerKind × Queue τ Job} (h : Wound t) (rs : List (Request τ)) :
    Wound (rs.foldl (fun t r => r.serve reaches due t) t) := by
  induction rs generalizing t with
  | nil => exact h
  | cons r rs ih => exact ih (wound_serve hr h r)

omit [TimeScale τ] in
theorem wound_disarmAll {s : Slots TimerKind} {q : Queue τ Job} (h : Wound (s, q)) :
    Wound (s.disarmAll (fun _ => true) q) :=
  Slots.disarmAll_keeps (P := fun s q => Wound (s, q)) (fun _ _ kind h => wound_disarm h kind) h

omit [TimeScale τ] in
theorem Wound.live_of_none {t : Slots TimerKind × Queue τ Job} (h : Wound t)
    (hn : ∀ kind, t.1.token? kind = none) : t.2.live = [] := by
  refine List.eq_nil_iff_forall_not_mem.mpr fun e he => ?_
  obtain ⟨kind, hk⟩ := h.owned e he
  have ht := h.backed.held e he kind hk
  rw [hn kind] at ht
  cases ht

structure Beating (l : Running τ) : Prop where
  wound : Wound (timing l)
  unwatched : l.host.watches = []
  still : l.host.owner.indicator.attached = false →
    ∀ kind, l.host.owner.timers.token? kind = none
  ticking : l.host.owner.indicator.attached = true →
    l.host.owner.indicator.settings.enabled = true → l.host.owner.timers.isArmed .tick = true

variable {setup : Setup τ} {l l' : Running τ} {u : Unit}

theorem Reacted.wound (hs : Alone setup) {f : Indicator τ → Reaction τ} (h : Reacted setup f l l')
    (hw : Wound (Panel.timing l)) : Wound (Panel.timing l') := by
  rw [h.timing]
  exact wound_foldl hs.reaches hw _

/-- A reaction that neither attaches, detaches nor enables, and has no orders. -/
theorem Reacted.beating_of_quiet (hs : Alone setup) {f : Indicator τ → Reaction τ}
    (h : Reacted setup f l l') (ho : (f l.host.owner.indicator).orders = [])
    (ha : (f l.host.owner.indicator).state.attached = l.host.owner.indicator.attached)
    (hset : (f l.host.owner.indicator).state.settings = l.host.owner.indicator.settings)
    (hb : Beating l) : Beating l' where
  wound := h.wound hs hb.wound
  unwatched := h.beside.polls.trans hb.unwatched
  still hd := by
    rw [h.state, ha] at hd
    rw [h.timers_of_nil ho]
    exact hb.still hd
  ticking hd he := by
    rw [h.state, ha] at hd
    rw [h.state, hset] at he
    rw [h.timers_of_nil ho]
    exact hb.ticking hd he

/-- A reaction of an attached indicator whose last order, if it is enabled, arms a tick. -/
theorem Reacted.beating_of_rearm (hs : Alone setup) {f : Indicator τ → Reaction τ}
    (h : Reacted setup f l l') (hw : Wound (Panel.timing l)) (hu : l.host.watches = [])
    (ha : (f l.host.owner.indicator).state.attached = true)
    (ho : (f l.host.owner.indicator).state.settings.enabled = true → ∃ rs delay,
      (f l.host.owner.indicator).orders = rs ++ [.arm .tick delay]) : Beating l' where
  wound := h.wound hs hw
  unwatched := h.beside.polls.trans hu
  still hd := by
    rw [h.state, ha] at hd
    cases hd
  ticking _ he := by
    rw [h.state] at he
    obtain ⟨rs, delay, hrs⟩ := ho he
    have ht := h.timing
    rw [hrs, List.foldl_append] at ht
    have harmed := congrArg (fun t => t.1.isArmed .tick) ht
    refine harmed.trans ?_
    rw [List.foldl_cons, List.foldl_nil, isArmed_serve_arm]
    simp

theorem listen_preserves_beating (hs : Alone setup) {d : Delivery}
    (h : listen setup d l = .ok u l') (hb : Beating l) : Beating l' := by
  have hr := react_ok h
  cases d with
  | connection b =>
    obtain ⟨ho, ⟨ρ, hρ⟩, -⟩ := connectionChanged_spec hr.faultless
    exact hr.beating_of_quiet hs ho (by rw [receive, hρ]) (by rw [receive, hρ]) hb
  | lock b =>
    obtain ⟨ho, ⟨ρ, hρ⟩, -⟩ := lockChanged_spec hr.faultless
    exact hr.beating_of_quiet hs ho (by rw [receive, hρ]) (by rw [receive, hρ]) hb
  | tint color pinned =>
    obtain ⟨ho, p, t, c, hstate⟩ := tintChanged_spec (i := l.host.owner.indicator) color pinned
    exact hr.beating_of_quiet hs ho (by rw [receive, hstate]) (by rw [receive, hstate]) hb
  | setting key v =>
    have ht := hr.timing
    have hstate := hr.state
    simp only [receive] at ht hstate
    cases settingChanged_taken (i := l.host.owner.indicator) key v with
    | refused _ hrefused =>
      have hnone := hr.faultless
      rw [receive, hrefused] at hnone
      cases hnone
    | unknown hu hf hsame ho =>
      exact hr.beating_of_quiet hs ho (by rw [receive, hsame]) (by rw [receive, hsame]) hb
    | stored hu hf ha hsame ho =>
      rw [hsame] at hstate
      refine ⟨hr.wound hs hb.wound, hr.beside.polls.trans hb.unwatched, ?_, ?_⟩
      · intro _
        rw [hr.timers_of_nil ho]
        exact hb.still ha
      · rw [hstate]
        intro ha'
        exact absurd (ha.symm.trans ha') Bool.false_ne_true
    | turnedOn hu hf ha hon hsame ho =>
      rw [hsame] at hstate
      refine ⟨hr.wound hs hb.wound, hr.beside.polls.trans hb.unwatched, ?_, ?_⟩
      · rw [hstate]
        intro ha'
        exact absurd (ha.symm.trans ha') (Bool.false_ne_true ·.symm)
      · intro _ _
        rw [ho] at ht
        refine (congrArg (fun t => t.1.isArmed .tick) ht).trans ?_
        rw [List.foldl_cons, List.foldl_cons, List.foldl_nil, isArmed_serve_arm, isArmed_serve_arm]
        simp
    | changed hu hf ha hon hsame ho =>
      rw [hsame] at hstate
      refine ⟨hr.wound hs hb.wound, hr.beside.polls.trans hb.unwatched, ?_, ?_⟩
      · rw [hstate]
        intro ha'
        exact absurd (ha.symm.trans ha') (Bool.false_ne_true ·.symm)
      · rw [hstate]
        intro _ he
        have hticking := hb.ticking ha (enabled_of_not_turnsOn hu hon he)
        rw [ho] at ht
        refine (congrArg (fun t => t.1.isArmed .tick) ht).trans ?_
        rw [List.foldl_cons, List.foldl_nil, isArmed_serve_arm]
        exact Bool.or_eq_true_iff.mpr (Or.inl hticking)

theorem tick_beats (hs : Alone setup) (h : tick setup l = .ok u l') (hw : Wound (timing l))
    (hu : l.host.watches = []) (ha : l.host.owner.indicator.attached = true) : Beating l' := by
  rcases tick_ok h with ⟨hd, -⟩ | ⟨-, reading, hr⟩
  · exact absurd (hd.symm.trans ha) Bool.false_ne_true
  · obtain ⟨rates, sampler, -, -, hstate, ho⟩ := tick_of_attached ha hr.faultless
    obtain ⟨ρ, hρ⟩ := render_state (i := l.host.owner.indicator.sampled rates sampler)
    rw [hρ] at hstate
    refine hr.beating_of_rearm hs hw hu (by rw [hstate]; exact ha) fun he => ?_
    rw [hstate] at he
    have he' : l.host.owner.indicator.settings.enabled = true := he
    rw [ho, he']
    exact ⟨_, _, rfl⟩

theorem refresh_beats (hs : Alone setup) (hr : Reacted setup Indicator.refresh l l')
    (hw : Wound (timing l)) (hu : l.host.watches = [])
    (ha : l.host.owner.indicator.attached = true) : Beating l' := by
  obtain ⟨-, hstate, ho⟩ := refresh_of_attached ha hr.faultless
  obtain ⟨ρ, hρ⟩ := render_state (i := l.host.owner.indicator)
  rw [hρ] at hstate
  refine hr.beating_of_rearm hs hw hu (by rw [hstate]; exact ha) fun he => ?_
  rw [hstate] at he
  rw [ho, if_pos he]
  exact ⟨[_], _, rfl⟩

structure Joining (l : Running τ) : Prop where
  wound : Wound (timing l)
  unwatched : l.host.watches = []
  attached : l.host.owner.indicator.attached = true

omit [TimeScale τ] in
theorem joining_remember (ids : List Nat) : Keeps Joining (remember ids : Act τ Unit) :=
  keeps_modify fun _ h => ⟨h.wound, h.unwatched, h.attached⟩

theorem receive_attached {d : Delivery} {i : Indicator τ} (h : (i.receive d).fault = none) :
    (i.receive d).state.attached = i.attached := by
  cases d with
  | connection b =>
    obtain ⟨-, ⟨ρ, hρ⟩, -⟩ := connectionChanged_spec h
    rw [receive, hρ]
  | lock b =>
    obtain ⟨-, ⟨ρ, hρ⟩, -⟩ := lockChanged_spec h
    rw [receive, hρ]
  | tint color pinned =>
    obtain ⟨-, p, t, c, hstate⟩ := tintChanged_spec (i := i) color pinned
    rw [receive, hstate]
  | setting key v =>
    rw [receive]
    cases settingChanged_taken (i := i) key v with
    | refused _ hrefused => rw [hrefused]; rfl
    | unknown _ _ hsame => rw [hsame]
    | stored _ _ _ hsame => rw [hsame]
    | turnedOn _ _ _ _ hsame => rw [hsame]; rfl
    | changed _ _ _ _ hsame => rw [hsame]

theorem joining_listen (hs : Alone setup) (d : Delivery) : Keeps Joining (listen setup d) := by
  intro l u l' h hj
  have hr := react_ok h
  refine ⟨hr.wound hs hj.wound, hr.beside.polls.trans hj.unwatched, ?_⟩
  rw [hr.state, receive_attached hr.faultless]
  exact hj.attached

theorem joining_openSettings (hs : Alone setup) {f : SettingsFeed} (hf : f ≠ .file) :
    Keeps Joining (openSettings setup f) := by
  cases f with
  | fixed entries =>
    exact keeps_bind (keeps_forM _ fun e _ => joining_listen hs _) fun _ => keeps_pure _
  | file => exact absurd rfl hf

theorem joining_openState (hs : Alone setup) (feed : Feed) (deliver : Bool → Delivery)
    {f : StateFeed} (hf : f ≠ .polled) : Keeps Joining (openState setup feed deliver f) := by
  cases f with
  | fixed b => exact keeps_bind (joining_listen hs _) fun _ => keeps_pure _
  | polled => exact absurd rfl hf

theorem joining_openCollaborators (hs : Alone setup) :
    Keeps Joining (openCollaborators setup) := by
  have hsettings : Keeps Joining (setup.collaborators.settings.mapM (openSettings setup)) := by
    apply keeps_mapM
    intro f hf
    exact joining_openSettings hs (hs.settings f hf)
  rw [openCollaborators_eq]
  refine keeps_bind hsettings fun ids => keeps_bind (joining_remember _) fun _ => ?_
  refine keeps_bind (keeps_elim fun feed hf => ?_) fun _ => ?_
  · have hpolled : feed ≠ .polled := by
      rintro rfl
      exact hs.connectivity hf
    exact keeps_bind (joining_openState hs _ _ hpolled) joining_remember
  refine keeps_bind (keeps_elim fun c _ => joining_listen hs _) fun _ => ?_
  apply keeps_elim
  intro feed hf
  have hpolled : feed ≠ .polled := by
    rintro rfl
    exact hs.lock hf
  exact keeps_bind (joining_openState hs _ _ hpolled) joining_remember

theorem attach_preserves_beating (hs : Alone setup) (h : attach setup l = .ok u l')
    (hb : Beating l) : Beating l' := by
  rcases attach_ok h with ⟨-, rfl⟩ | ⟨-, j, m, hj, hm, hr⟩
  · exact hb
  · have hstart : Joining j := by
      refine ⟨hj.wound hs hb.wound, hj.beside.polls.trans hb.unwatched, ?_⟩
      rw [hj.state, join_spec.1]
    obtain ⟨hw, hu, ha⟩ := joining_openCollaborators hs j () m hm hstart
    obtain ⟨-, hstate, ho⟩ := settleIn_spec hr.faultless
    obtain ⟨ρ, hρ⟩ := render_state (i := m.host.owner.indicator)
    rw [hρ] at hstate
    cases harmed : m.host.owner.timers.isArmed .tick with
    | false =>
      refine hr.beating_of_rearm hs hw hu (by rw [hstate]; exact ha) fun he => ?_
      rw [hstate] at he
      rw [ho, he, harmed]
      exact ⟨[], _, rfl⟩
    | true =>
      rw [harmed, Bool.not_true, Bool.and_false] at ho
      have htimers : l'.host.owner.timers = m.host.owner.timers := by
        apply hr.timers_of_nil
        rw [harmed]
        exact ho
      refine ⟨hr.wound hs hw, hr.beside.polls.trans hu, ?_, ?_⟩
      · intro hd
        have ha' : l'.host.owner.indicator.attached = true := by
          rw [hr.state, hstate]
          exact ha
        rw [ha'] at hd
        cases hd
      · intro _ _
        rw [htimers]
        exact harmed

omit [TimeScale τ] in
theorem unwatch_of_unwatched {m : Running τ} (hm : m.host.watches = []) (id : Nat) :
    Keeps (· = m) (Station.unwatch id : Act τ Unit) := by
  intro l u l' h hl
  subst hl
  simp only [Station.unwatch, bind_ok, get_ok] at h
  obtain ⟨_, l, ⟨rfl, rfl⟩, h⟩ := h
  rw [hm, List.getElem?_nil] at h
  exact (pure_ok.mp h).2

theorem detach_preserves_beating (hs : Alone setup) (h : detach setup l = .ok u l')
    (hb : Beating l) : Beating l' := by
  obtain ⟨m, k, hm, hk, hr⟩ := detach_ok h
  have hm' := onTimers_ok.mp hm
  have hw : m.host.watches = [] := by
    rw [hm']
    exact hb.unwatched
  have hunwatch : Keeps (· = m)
      (m.host.owner.watches.forM fun ids => ids.forM Station.unwatch : Act τ PUnit) := by
    apply keeps_forM
    intro ids _
    apply keeps_forM
    intro id _
    exact unwatch_of_unwatched hw id
  have hkm : k = m := hunwatch m ⟨⟩ k hk rfl
  subst hkm
  have hwound : Wound (timing k) := by
    rw [hm', hs.reaches]
    exact wound_disarmAll hb.wound
  have hnone : ∀ kind, k.host.owner.timers.token? kind = none := by
    rw [hm']
    exact Slots.token?_disarmAll _ _ _
  obtain ⟨-, ho, hd⟩ := leave_spec (i := k.host.owner.indicator)
  refine ⟨hr.wound hs hwound, hr.beside.polls.trans hw, ?_, ?_⟩
  · intro _
    rw [hr.timers_of_nil ho]
    exact hnone
  · rw [hr.state]
    intro ha
    exact absurd (hd.symm.trans ha) Bool.false_ne_true

theorem operation_preserves_beating (hs : Alone setup) {op : Operation}
    (h : op.act setup l = .ok u l') (hb : Beating l) : Beating l' := by
  cases op with
  | attach => exact attach_preserves_beating hs h hb
  | detach => exact detach_preserves_beating hs h hb
  | deliver d => exact listen_preserves_beating hs h hb
  | tick =>
    cases ha : l.host.owner.indicator.attached with
    | true => exact tick_beats hs h hb.wound hb.unwatched ha
    | false =>
      rcases tick_ok h with ⟨-, rfl⟩ | ⟨ha', -⟩
      · exact hb
      · exact absurd (ha.symm.trans ha') Bool.false_ne_true

theorem takeDue_ok {now : τ} {o : Option (Entry τ Job)} {m : Running τ} :
    takeDue now l = .ok o m ↔
      o = (l.queue.takeDue now).1 ∧ m = { l with queue := (l.queue.takeDue now).2 } := by
  simp only [takeDue, bind_ok, get_ok, set_ok, pure_ok]
  constructor
  · rintro ⟨_, _, ⟨rfl, rfl⟩, -, _, rfl, rfl, rfl⟩
    exact ⟨rfl, rfl⟩
  · rintro ⟨rfl, rfl⟩
    exact ⟨_, _, ⟨rfl, rfl⟩, ⟨⟩, _, rfl, rfl, rfl⟩

/-- Only an attached indicator has timers to fire, and each arms the next tick. -/
theorem turn_preserves_beating (hs : Alone setup) {now : τ} {e : Entry τ Job} {m : Running τ}
    (htake : takeDue now l = .ok (some e) m) (h : fire setup e m = .ok u l') (hb : Beating l) :
    Beating l' := by
  obtain ⟨he, rfl⟩ := takeDue_ok.mp htake
  have hq : l.queue.takeDue now = (some e, (l.queue.takeDue now).2) := Prod.ext he.symm rfl
  obtain ⟨hsound, hlive, -, -⟩ := Queue.takeDue_some hb.wound.sound hq
  replace hlive : l.queue.live = e :: (l.queue.takeDue now).2.live := hlive
  have hmem : e ∈ l.queue.live := by rw [hlive]; exact List.mem_cons_self
  obtain ⟨kind, hk⟩ := hb.wound.owned e hmem
  have ha : l.host.owner.indicator.attached = true := by
    cases ha : l.host.owner.indicator.attached with
    | true => rfl
    | false =>
      have hheld : l.host.owner.timers.token? kind = _ := hb.wound.backed.held e hmem kind hk
      rw [hb.still ha kind] at hheld
      cases hheld
  have hw : Wound (l.host.owner.timers.release kind e.token, (l.queue.takeDue now).2) := by
    refine ⟨hsound, ?_, Slots.backed_release hb.wound.sound hb.wound.backed hlive hk⟩
    intro f hf
    have hmem : f ∈ l.queue.live := by
      rw [hlive]
      exact List.mem_cons_of_mem _ hf
    exact hb.wound.owned f hmem
  rw [fire, Station.fire] at h
  cases hj : e.job with
  | poll feed id => rw [hj] at hk; cases hk
  | own kind' =>
    rw [hj] at h hk
    cases hk
    obtain ⟨k, rfl, h⟩ := fireOwn_ok h
    cases kind with
    | tick => exact tick_beats hs h hw hb.unwatched ha
    | refresh => exact refresh_beats hs h hw hb.unwatched ha

omit [TimeScale τ] in
theorem beating_of_live {q : Queue τ Job} (hq : q.Sound) (hlive : q.live = l.queue.live)
    (hb : Beating l) : Beating { l with queue := q } where
  wound := by
    obtain ⟨-, howned, hqueued, hheld⟩ := hb.wound
    change ∀ e ∈ l.queue.live, _ at howned
    change ∀ k t, _ → ∃ e ∈ l.queue.live, _ at hqueued
    change ∀ e ∈ l.queue.live, _ at hheld
    rw [← hlive] at howned hqueued hheld
    exact ⟨hq, howned, hqueued, hheld⟩
  unwatched := hb.unwatched
  still := hb.still
  ticking := hb.ticking

omit [TimeScale τ] in
theorem nextDeadline_ok {d : Option τ} :
    nextDeadline l = .ok d l' ↔
      d = l.queue.settle.deadline? ∧ l' = { l with queue := l.queue.settle } := by
  simp only [nextDeadline, bind_ok, get_ok, modify_ok, pure_ok]
  constructor
  · rintro ⟨-, _, rfl, _, _, ⟨rfl, rfl⟩, rfl, rfl⟩
    exact ⟨rfl, rfl⟩
  · rintro ⟨rfl, rfl⟩
    exact ⟨⟨⟩, _, rfl, _, _, ⟨rfl, rfl⟩, rfl, rfl⟩

theorem driven_beating (h : Driven l) : Beating l := by
  induction h with
  | @fresh l hi ht hq hw =>
    have htiming : timing l = ({}, {}) := Prod.ext ht hq
    refine ⟨?_, hw, ?_, ?_⟩
    · rw [htiming]
      exact wound_empty
    · intro _ kind
      rw [ht]
      rfl
    · rw [hi]
      intro ha
      cases ha
  | operation hs op h hop ih => exact operation_preserves_beating hs hop ih
  | turn hs h htake hf ih => exact turn_preserves_beating hs htake hf ih
  | idle h htake ih =>
    obtain ⟨he, rfl⟩ := takeDue_ok.mp htake
    obtain ⟨hq, hlive⟩ := Queue.takeDue_none ih.wound.sound (Prod.ext he.symm rfl)
    exact beating_of_live hq hlive ih
  | peek h hp ih =>
    obtain ⟨-, rfl⟩ := nextDeadline_ok.mp hp
    exact beating_of_live (Queue.sound_settle ih.wound.sound) (Queue.live_settle ih.wound.sound) ih
  | @around l l' h hi ht hw ih =>
    have htimers : l'.host.owner.timers = l.host.owner.timers := congrArg Prod.fst ht
    refine ⟨ht ▸ ih.wound, hw.trans ih.unwatched, ?_, ?_⟩
    · rw [hi, htimers]
      exact ih.still
    · rw [hi, htimers]
      exact ih.ticking

theorem turns_driven (hs : Alone setup) : Turns Driven (fun _ _ => True) (fire setup) where
  fires l now e q hd ht := by
    have htake : takeDue now l = .ok (some e) { l with queue := q } := by
      rw [takeDue_ok, ht]
      exact ⟨rfl, rfl⟩
    cases hf : fire setup e { l with queue := q } with
    | ok u m => exact hd.turn hs htake hf
    | error h m => trivial
  idles l now q hd ht := by
    have htake : takeDue now l = .ok none { l with queue := q } := by
      rw [takeDue_ok, ht]
      exact ⟨rfl, rfl⟩
    exact hd.idle htake
  tires _ _ := trivial

theorem driven_advance (hs : Alone setup) (ms : τ) : Keeps Driven (advance setup ms) :=
  (ends_advance (turns_driven hs) (fun _ hd => hd.peek (nextDeadline_ok.mpr ⟨rfl, rfl⟩))
    (fun _ _ hd => hd.around rfl rfl rfl) _ ms).keeps

theorem driven_sleep (finish seconds : τ) : Keeps Driven (Session.sleep finish seconds) := by
  intro l u l' h hd
  simp only [Session.sleep, bind_ok, get_ok] at h
  obtain ⟨_, l, ⟨rfl, rfl⟩, h⟩ := h
  split at h
  · obtain ⟨_, _, h, -⟩ := bind_ok.mp h
    exact (throw_ok.mp h).elim
  · rw [set_ok.mp h]
    exact hd.around rfl rfl rfl

theorem pauses_driven (setup : Setup τ) (finish : τ) :
    Pauses Driven (fun _ _ => True) (Session.hooks setup finish) where
  settles _ hd := hd.peek (nextDeadline_ok.mpr ⟨rfl, rfl⟩)
  sleeps seconds := (driven_sleep finish seconds).ends
  rests := ends_modify fun _ hd => hd.around rfl rfl rfl
  started _ _ hd := hd.around rfl rfl rfl
  stopped _ _ _ _ := trivial

theorem driven_run (hs : Alone setup) (finish : τ) (turns : Nat) :
    Keeps Driven (run (Session.hooks setup finish) turns) :=
  (ends_run (turns_driven hs) (pauses_driven setup finish) turns).keeps

/-- A detached indicator waits for nothing, one that is attached and enabled has its next tick
armed, and the loop always holds one entry for each kind of timer that is armed. -/
theorem timers_of_driven (h : Driven l) :
    (l.host.owner.indicator.attached = false → l.queue.live = []) ∧
      (l.host.owner.indicator.attached = true →
        l.host.owner.indicator.settings.enabled = true →
          l.host.owner.timers.isArmed .tick = true) ∧
      l.queue.liveCount =
        (([.tick, .refresh] : List TimerKind).filter l.host.owner.timers.isArmed).length := by
  have hb := driven_beating h
  refine ⟨fun hd => hb.wound.live_of_none (hb.still hd), hb.ticking, ?_⟩
  refine Slots.liveCount_of_backed hb.wound.sound hb.wound.backed hb.wound.owned (by decide) ?_
  intro kind
  cases kind <;> decide

/-- Attached and left to itself for a while, then disabled, an indicator still ticks once and
refreshes once; detached, it does neither. -/
theorem timers_after_disabling :
    ∃ l l' : Running Rat, Driven l ∧ Driven l' ∧
      l.host.owner.indicator.settings.enabled = false ∧ l.queue.liveCount = 2 ∧
      l'.queue.live = [] := by
  let joined := (Session.runThrough (attach secluded) (made { enabled := true } {})).1
  let later := (Session.runThrough (advance secluded 2500) joined).1
  let disabled := (Session.runThrough
    (listen secluded (.setting "networktraffic.enabled" (.bool false))) later).1
  let left := (Session.runThrough (detach secluded) disabled).1
  have hs : Alone secluded := ⟨rfl, fun _ h => (List.not_mem_nil h).elim, nofun, nofun⟩
  have hmade : Driven (made { enabled := true } {}) := .fresh rfl rfl rfl rfl
  have hjoined : Driven joined := by
    apply Driven.operation hs .attach hmade
    exact Session.runThrough_unit (by decide +kernel)
  have hlater : Driven later := by
    apply driven_advance hs 2500 _ () _ _ hjoined
    exact Session.runThrough_unit (by decide +kernel)
  have hdisabled : Driven disabled := by
    apply Driven.operation hs (.deliver _) hlater
    exact Session.runThrough_unit (by decide +kernel)
  have hleft : Driven left := by
    apply Driven.operation hs .detach hdisabled
    exact Session.runThrough_unit (by decide +kernel)
  obtain ⟨-, -, hcount⟩ := timers_of_driven hdisabled
  obtain ⟨hstill, -⟩ := timers_of_driven hleft
  refine ⟨disabled, left, hdisabled, hleft, by decide +kernel, hcount.trans ?_, hstill ?_⟩
  · decide +kernel
  · decide +kernel

end TrafficIndicator.Panel
