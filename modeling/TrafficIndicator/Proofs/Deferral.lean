import Mathlib.Algebra.Order.Ring.Rat
import TrafficIndicator.Proofs.SampleHistory
import TrafficIndicator.Proofs.TickSpacing

/-!
An indicator keeps its sampling interval in every reaction, and arms its timers for that interval
or for the time that changed settings wait. Only what turns it on, and only settling in, asks for
a tick at once.
-/
namespace TrafficIndicator

def Request.Defers (atOnce : Prop) : Request Rat → Prop
  | .arm kind delay => 0 < delay ∨ (kind = .tick ∧ atOnce)
  | _ => True

theorem Request.defers_of_not_order {atOnce : Prop} {q : Request Rat} (h : q.isOrder = false) :
    q.Defers atOnce := by
  cases q with
  | send | note => trivial
  | arm | disarm => cases h

namespace Indicator

open Reaction

variable {i : Indicator Rat} {r : Reaction Rat} {interval : Rat} {atOnce : Prop}

structure Deferring (interval : Rat) (atOnce : Prop) (r : Reaction Rat) : Prop where
  state : r.state.sampler.interval = interval
  states : ∀ p ∈ r.steps, p.1.sampler.interval = interval
  requests : ∀ q ∈ r.requests, q.Defers atOnce

/-- What leaves the sampler alone and orders nothing asks for nothing that falls due. -/
theorem Deferring.of_steady (h : Steady i r) (ho : r.orders = [])
    (hi : i.sampler.interval = interval) : Deferring interval atOnce r where
  state := by rw [h.state.sampler, hi]
  states p hp := by rw [(h.states p hp).sampler, hi]
  requests q hq := by
    refine Request.defers_of_not_order ?_
    cases hor : q.isOrder with
    | false => rfl
    | true =>
      have hmem : q ∈ r.orders := List.mem_filter.mpr ⟨hq, hor⟩
      rw [ho] at hmem
      cases hmem

theorem Deferring.andThen {next : Indicator Rat → Reaction Rat} (h : Deferring interval atOnce r)
    (hn : r.state.sampler.interval = interval → Deferring interval atOnce (next r.state)) :
    Deferring interval atOnce (r.andThen next) := by
  cases hf : r.fault with
  | some f =>
    rw [andThen_of_some hf]
    exact h
  | none =>
    have hnext := hn h.state
    refine ⟨?_, fun p hp => ?_, fun q hq => ?_⟩
    · rw [state_andThen hf]
      exact hnext.state
    · rw [andThen_of_none hf] at hp
      rcases List.mem_append.mp hp with hp | hp
      · exact h.states p hp
      · exact hnext.states p hp
    · rw [requests_andThen hf] at hq
      rcases List.mem_append.mp hq with hq | hq
      · exact h.requests q hq
      · exact hnext.requests q hq

theorem deferring_asking {rs : List (Request Rat)} (hi : i.sampler.interval = interval)
    (hrs : ∀ q ∈ rs, q.Defers atOnce) : Deferring interval atOnce (i.asking rs) where
  state := hi
  states p hp := by
    obtain ⟨q, -, rfl⟩ := List.mem_map.mp hp
    exact hi
  requests q hq := by
    obtain ⟨p, hp, rfl⟩ := List.mem_map.mp hq
    obtain ⟨q, hmem, rfl⟩ := List.mem_map.mp hp
    exact hrs q hmem

theorem deferring_quiet (hi : i.sampler.interval = interval) :
    Deferring interval atOnce i.quiet :=
  .of_steady (steady_quiet i) rfl hi

theorem deferring_render (hi : i.sampler.interval = interval) :
    Deferring interval atOnce i.render :=
  .of_steady steady_render render_orders hi

theorem deferring_renderIfAttached (hi : i.sampler.interval = interval) :
    Deferring interval atOnce i.renderIfAttached := by
  rw [renderIfAttached]
  split
  · exact deferring_render hi
  · exact deferring_quiet hi

theorem deferring_connectionChanged (b : Bool) (hi : i.sampler.interval = interval) :
    Deferring interval atOnce (i.connectionChanged b) := by
  refine (deferring_asking (i := { i with connected := b }) hi ?_).andThen
    deferring_renderIfAttached
  simp [Request.Defers]

theorem deferring_tintChanged (color : Value) (pinned : Bool)
    (hi : i.sampler.interval = interval) :
    Deferring interval atOnce (i.tintChanged color pinned) :=
  .of_steady (steady_tintChanged color pinned) (tintChanged_spec color pinned).1 hi

theorem deferring_settingChanged (key : LooseText) (v : Value)
    (hi : i.sampler.interval = interval) :
    Deferring interval True (i.settingChanged key v) := by
  rw [settingChanged]
  split
  · exact .of_steady (steady_failing i _) rfl hi
  · exact deferring_asking hi (by simp [Request.Defers])
  · rename_i settings _
    refine (deferring_asking (i := { i with settings := settings }) hi ?_).andThen fun hi => ?_
    · simp [Request.Defers]
    · split
      · exact deferring_quiet hi
      · refine Deferring.andThen ?_ fun hi => deferring_asking hi ?_
        · split
          · exact deferring_asking (i := restart _) hi (by simp [Request.Defers])
          · exact deferring_quiet hi
        · intro q hq
          rw [List.mem_singleton.mp hq]
          exact Or.inl (by decide +kernel)

theorem deferring_settleIn (armed : Bool) (hi : i.sampler.interval = interval) :
    Deferring interval True (i.settleIn armed) := by
  refine (deferring_render hi).andThen fun hi => ?_
  split
  · exact deferring_asking hi (by simp [Request.Defers])
  · exact deferring_quiet hi

theorem deferring_leave (hi : i.sampler.interval = interval) :
    Deferring interval atOnce i.leave := by
  rw [leave]
  split
  · exact deferring_asking (i := i.fresh) hi (by simp [Request.Defers])
  · exact deferring_quiet hi

section Sampling

variable (hpos : 0 < interval)

include hpos

theorem deferring_armNextTick (hi : i.sampler.interval = interval) :
    Deferring interval atOnce i.armNextTick := by
  rw [armNextTick]
  split
  · refine deferring_asking hi fun q hq => ?_
    rw [List.mem_singleton.mp hq, hi]
    exact Or.inl hpos
  · exact deferring_quiet hi

theorem deferring_renderThenTick (hi : i.sampler.interval = interval) :
    Deferring interval atOnce (i.render.andThen armNextTick) :=
  (deferring_render hi).andThen (deferring_armNextTick hpos)

theorem deferring_refresh (hi : i.sampler.interval = interval) :
    Deferring interval atOnce i.refresh := by
  rw [refresh]
  split
  · exact deferring_quiet hi
  · exact (deferring_asking hi (by simp [Request.Defers])).andThen
      (deferring_renderThenTick hpos)

theorem deferring_tick (reading : Except Fault (Reading Rat))
    (hi : i.sampler.interval = interval) : Deferring interval atOnce (i.tick reading) := by
  rw [tick]
  split
  · exact deferring_quiet hi
  · refine (deferring_asking hi (by simp [Request.Defers])).andThen fun hi => ?_
    dsimp only [asking_state] at hi ⊢
    cases ht : reading.bind i.sampler.take with
    | error f => exact .of_steady (steady_failing i f) (failing_orders f) hi
    | ok p =>
      obtain ⟨rates, sampler⟩ := p
      refine deferring_renderThenTick hpos ?_
      cases reading with
      | error f => cases ht
      | ok reading =>
        rw [← hi]
        exact (Sampler.take_ok ht).1

end Sampling

end Indicator

namespace Panel

open Loop Indicator

def Stimulus.AtOnce : Stimulus Rat → Prop
  | .settleIn _ => True
  | .deliver (.setting _ _) => True
  | _ => False

theorem Stimulus.deferring {interval : Rat} (hpos : 0 < interval) (s : Stimulus Rat)
    {i : Indicator Rat} (hi : i.sampler.interval = interval) :
    Deferring interval s.AtOnce (s.reaction i) := by
  cases s with
  | join => exact deferring_asking (i := { i with attached := true }) hi (by simp [Request.Defers])
  | settleIn armed => exact deferring_settleIn armed hi
  | deliver d =>
    cases d with
    | setting key v => exact deferring_settingChanged key v hi
    | connection b => exact deferring_connectionChanged b hi
    | tint color pinned => exact deferring_tintChanged color pinned hi
    | lock b => exact deferring_renderIfAttached hi
  | tick reading => exact deferring_tick hpos reading hi
  | refresh => exact deferring_refresh hpos hi
  | leave => exact deferring_leave hi

/-- Whatever happens to an indicator, and however it ends, it samples at the interval that it was
made with. -/
theorem lasting_interval {interval : Rat} (hpos : 0 < interval) :
    Lasting fun l => l.host.owner.indicator.sampler.interval = interval where
  reacts setup s l hi := by
    have hd := s.deferring hpos hi
    rcases indicator_after_react setup s.reaction l with hr | ⟨p, hp, -, hr⟩
    · rw [hr]
      exact hd.state
    · rw [hr]
      exact hd.states p hp
  around l l' hsame _ hi := by rw [hsame, hi]

end Panel

end TrafficIndicator
