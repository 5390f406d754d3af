import Mathlib.Data.List.Count
import Routerd.MirrorLifetimes
import Routerd.RedirectorEvents

/-!
# Batches of pending events

A frame signals one event for each of its packets, so several events of one type are
usually pending when the redirector is woken. `vlib_process_get_events` hands over the
data of all of them, and none is pending afterwards. The redirector writes and frees the
first clone only; the others are neither written nor freed by anyone.
-/

namespace Routerd
open NumeralText

def MirrorContext.liveFds (ctx : MirrorContext) : List ℤ :=
  (ctx.taps.filter fun t => decide (0 < t.fd)).map MirrorTap.fd

theorem tapMirrorRedirectorFn_of_pending {v : TapMirror} {queue : List MirrorEvent}
    {i : ContextSlot} {ctx : MirrorContext} (hctx : v.contexts i = some ctx) {e : MirrorEvent}
    {others : List MirrorEvent} (hpending : (queue.filter fun e => e.slot = i) = e :: others) :
    tapMirrorRedirectorFn v queue i =
      .ok (queue.filter fun e => e.slot ≠ i,
        some ⟨ctx, ctx.liveFds.map fun fd => (fd, e.buffer), [e.buffer]⟩) := by
  unfold tapMirrorRedirectorFn
  rw [hpending]
  simp only [hctx]
  rw [MirrorContext.liveFds, List.map_map]
  rfl

/-- Events are pending for a slot that holds a context. Each carries a clone of its own. -/
structure PendingBatch where
  plugin : TapMirror
  queue : List MirrorEvent
  slot : ContextSlot
  ctx : MirrorContext
  context : plugin.contexts slot = some ctx
  pending : ∃ e ∈ queue, e.slot = slot
  distinct : ((queue.filter fun e => e.slot = slot).map MirrorEvent.buffer).Nodup

namespace PendingBatch

def events (q : PendingBatch) : List MirrorEvent := q.queue.filter fun e => e.slot = q.slot

/-- Every clone went once to every live descriptor and was freed once. -/
structure Done (q : PendingBatch) (pass : RedirectorPass) : Prop where
  written : ∀ e ∈ q.events, ∀ fd ∈ q.ctx.liveFds, pass.writes.count (fd, e.buffer) = 1
  freed : ∀ e ∈ q.events, pass.freed.count e.buffer = 1

variable (q : PendingBatch)

theorem events_ne_nil : q.events ≠ [] := by
  obtain ⟨e, he, hslot⟩ := q.pending
  exact List.ne_nil_of_mem (List.mem_filter.mpr ⟨he, decide_eq_true hslot⟩)

theorem count_writes (fds : List ℤ) (fd : ℤ) (buffer : ℕ) :
    (fds.map fun g => (g, buffer)).count (fd, buffer) = fds.count fd :=
  List.count_map_of_injective fds (fun g => (g, buffer)) (fun _ _ h => congrArg Prod.fst h) fd

/-- Whatever the taps of the context are, one pass deals with the whole batch exactly if
one event is pending and no two live entries share a descriptor. -/
theorem redirector_done_iff :
    (∃ queue pass, tapMirrorRedirectorFn q.plugin q.queue q.slot = .ok (queue, some pass) ∧
        q.Done pass) ↔ q.events.length = 1 ∧ q.ctx.liveFds.Nodup := by
  obtain ⟨e, others, hevents⟩ := List.exists_cons_of_ne_nil q.events_ne_nil
  have hpass := tapMirrorRedirectorFn_of_pending q.context hevents
  constructor
  · rintro ⟨queue, pass, heq, hdone⟩
    cases hpass.symm.trans heq
    have hone : others = [] := by
      -- The clone of a second event is another buffer, and it is not freed.
      refine List.eq_nil_iff_forall_not_mem.mpr fun e' he' => ?_
      have hfreed := hdone.freed e' (hevents ▸ List.mem_cons_of_mem e he')
      have hsame : e'.buffer = e.buffer :=
        List.mem_singleton.mp (List.count_pos_iff.mp (hfreed ▸ Nat.one_pos))
      have hnodup : (q.events.map MirrorEvent.buffer).Nodup := q.distinct
      rw [hevents, List.map_cons, List.nodup_cons] at hnodup
      exact hnodup.1 (hsame ▸ List.mem_map_of_mem he')
    refine ⟨by rw [hevents, hone]; rfl, List.nodup_iff_count_eq_one.mpr fun fd hfd => ?_⟩
    rw [← count_writes _ fd e.buffer]
    exact hdone.written e (hevents ▸ List.mem_cons_self) fd hfd
  · rintro ⟨hlength, hnodup⟩
    have hone : q.events = [e] := by
      rw [hevents] at hlength ⊢
      rw [List.length_eq_zero_iff.mp (Nat.succ.inj hlength)]
    refine ⟨_, _, hpass, ⟨fun e' he' fd hfd => ?_, fun e' he' => ?_⟩⟩ <;>
      rw [hone, List.mem_singleton] at he' <;> subst he'
    · rw [count_writes]
      exact List.nodup_iff_count_eq_one.mp hnodup fd hfd
    · exact List.count_singleton_self

end PendingBatch

def oneTapContext : MirrorContext :=
  ⟨ip4Input, List.replicate 9 ⟨0, none⟩ ++ [⟨3, some tap0⟩], .other 2, ip4Input, false, 0⟩

theorem oneTap_context : oneTap.contexts 0 = some oneTapContext := by decide

theorem twoEvents_distinct :
    (([⟨0, 7, 0⟩, ⟨0, 8, 0⟩] : List MirrorEvent).filter (fun e => e.slot = 0)
      |>.map MirrorEvent.buffer).Nodup := by decide

def twoPending : PendingBatch where
  plugin := oneTap
  queue := [⟨0, 7, 0⟩, ⟨0, 8, 0⟩]
  slot := 0
  ctx := oneTapContext
  context := oneTap_context
  pending := ⟨⟨0, 7, 0⟩, List.mem_cons_self, rfl⟩
  distinct := twoEvents_distinct

/-- They are what a frame leaves behind; the second clone is neither written nor freed. -/
theorem twoPending_second_lost :
    systemRun (systemInit smallGraph [0, 1, 2])
        [.plugin (enableStep ip4Input tap0), .plugin (frameStep ip4Input [7, 8])] =
      .ok ⟨twoPending.plugin, twoPending.queue⟩ ∧
    (∃ ctx, tapMirrorRedirectorFn twoPending.plugin twoPending.queue 0 =
      .ok ([], some ⟨ctx, [(3, 7)], [7]⟩)) ∧
    ¬ ∃ queue pass, tapMirrorRedirectorFn twoPending.plugin twoPending.queue twoPending.slot =
      .ok (queue, some pass) ∧ twoPending.Done pass := by
  have hpass : tapMirrorRedirectorFn twoPending.plugin twoPending.queue 0 =
      .ok ([], some ⟨twoPending.ctx, [(3, 7)], [7]⟩) := by rfl
  refine ⟨rfl, ⟨_, hpass⟩, ?_⟩
  rintro ⟨queue, pass, heq, hdone⟩
  cases hpass.symm.trans heq
  exact absurd (hdone.freed ⟨0, 8, 0⟩ (by decide)) (by decide)

end Routerd
