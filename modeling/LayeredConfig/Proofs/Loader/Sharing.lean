import LayeredConfig.Proofs.Loader.Interleaving
import LayeredConfig.Proofs.Loader.Retrying

/-!
# Sharing a loader between threads

What the invariant of `LayeredConfig.Proofs.Loader.Interleaving` comes to for those who share a
loader: whatever the order in which the threads take their steps, each view is computed once, all
are given the same, and nobody waits for somebody who waits.
-/

namespace LayeredConfig

variable {l : Loader} {t : ThreadId} {w : World}

namespace System

/-- The thread has asked for the lock and cannot have it. -/
def Waits (s : System) (t : ThreadId) : Prop :=
  (∃ v callers, s.threads t = .running v .waiting callers) ∧ s.lock.acquire t = none

/-- The threads do not get into each other's way. -/
structure Synchronized (l : Loader) (s : System) (history : List Occurrence) : Prop where
  /-- At most one thread is inside a factory. -/
  exclusive : ∀ {t u}, (s.threads t).Inside → (s.threads u).Inside → t = u
  /-- Of each view at most one run of the factory has succeeded. -/
  once : ∀ v, history.countP (·.succeedsIn v) ≤ 1
  /-- What is remembered is never replaced. -/
  lasting : ∀ {told s'} {v : ViewName} {a}, Step l s told s' → v.known (s.world.memo l.number) = some a →
    v.known (s'.world.memo l.number) = some a
  /-- All calls of a view that gave something gave the same. -/
  same : ∀ {t u} {v : ViewName} {a b}, .returned t v (.ok a) ∈ history →
    .returned u v (.ok b) ∈ history → a = b
  /-- Nothing is remembered but what a run of the factory has given. -/
  earned : ∀ {told s'} {v : ViewName}, Step l s told s' →
    v.known (s'.world.memo l.number) ≠ v.known (s.world.memo l.number) →
    ∃ t a, told = some (.stored t v a) ∧ .succeeded t v a ∈ history
  /-- A call that ends because the factory has failed leaves nothing remembered of the view. -/
  failed : ∀ {t v f callers}, s.threads t = .running v (.leaving (.error f)) callers →
    v.known (s.world.memo l.number) = none
  /-- A thread that is in no call does not hold the lock. -/
  released : ∀ {t}, s.threads t = .idle → s.lock.count t = 0
  /-- A thread that is in a call can go on unless it waits. -/
  active : ∀ {t}, s.threads t ≠ .idle → ¬ s.Waits t →
    ∃ turn, l.Move t s.world s.lock (s.threads t) turn
  /-- A thread that waits, waits for one that does not wait. -/
  awaited : ∀ {t}, s.Waits t → ∃ u, u ≠ t ∧ 0 < s.lock.count u ∧ s.threads u ≠ .idle ∧ ¬ s.Waits u

variable {s s' : System} {history : List Occurrence} {told : Option Occurrence}

namespace Invariant

variable (h : Invariant l s history)

include h

theorem known_of_step {v : ViewName} {a : v.Result} (hstep : Step l s told s')
    (hknown : v.known (s.world.memo l.number) = some a) :
    v.known (s'.world.memo l.number) = some a := by
  cases hstep with
  | call t v hidle => exact hknown
  | move t hmove => exact hmove.known_of_known h.made (h.sane t) hknown
  | outside hsame => exact (congrArg _ hsame.memo_eq).trans hknown

theorem stored_of_step {v : ViewName} (hstep : Step l s told s')
    (hchanged : v.known (s'.world.memo l.number) ≠ v.known (s.world.memo l.number)) :
    ∃ t a, told = some (.stored t v a) ∧ .succeeded t v a ∈ history := by
  cases hstep with
  | call t v hidle => exact absurd rfl hchanged
  | outside hsame => exact absurd (congrArg _ hsame.memo_eq) hchanged
  | move t hmove =>
    rcases hmove.memo_cases (h.sane t) with ⟨hsame, _⟩ | ⟨u, a, callers, hth, hworld, _, htold⟩
    · exact absurd (congrArg _ hsame.memo_eq) hchanged
    · have hv : v = u := by
        by_contra hne
        refine hchanged ?_
        rw [take, hworld, Loader.memo_store h.made, ViewName.known_keep_of_ne hne]
      subst hv
      exact ⟨t, a, htold, h.pending hth⟩

/-- Whoever holds the lock does not wait for it. -/
theorem not_waits_of_pos (hpos : 0 < s.lock.count t) : s.threads t ≠ .idle ∧ ¬ s.Waits t := by
  constructor
  · intro hidle
    rw [← h.held, hidle] at hpos
    exact Nat.lt_irrefl 0 hpos
  · rintro ⟨_, hnone⟩
    obtain ⟨k, hk⟩ := (Lock.acquire_release_of_pos hpos).2
    cases hnone.symm.trans hk

end Invariant

/-- A thread that nobody disturbs takes the system along. -/
theorem Reachable.alone {o : Outlook} (h : Reachable l w s history)
    (halone : l.Alone t ⟨s.world, s.lock, s.threads t⟩ o) :
    ∃ history', Reachable l w ⟨o.world, o.lock, Function.update s.threads t o.thread⟩ history' := by
  induction halone with
  | refl =>
    rw [Function.update_eq_self]
    exact ⟨history, h⟩
  | @tail o o' _ hmoves ih =>
    obtain ⟨told, hmove⟩ := hmoves
    obtain ⟨history', hreach⟩ := ih
    have hthread : Function.update s.threads t o.thread t = o.thread := Function.update_self ..
    rw [← hthread] at hmove
    have hnext := hreach.step (.move t hmove)
    rw [take, Function.update_idem] at hnext
    exact ⟨_, hnext⟩

/-- **Threads that share a loader are kept in order by its lock**, in whatever order they take their
steps and whatever happens outside meanwhile. -/
theorem Reachable.synchronized (hl : l.Secluded) (hmade : l.number < w.memos.size)
    (hfresh : w.memo l.number = default) (h : Reachable l w s history) :
    Synchronized l s history := by
  have inv := h.invariant hl hmade hfresh
  exact {
    exclusive := fun ht hu ↦
      inv.eq_of_holds_pos (Thread.holds_pos_of_inside ht) (Thread.holds_pos_of_inside hu)
    once := inv.once
    lasting := inv.known_of_step
    same := fun ht hu ↦ Option.some.inj ((inv.returned ht).symm.trans (inv.returned hu))
    earned := inv.stored_of_step
    failed := fun {t _ _ _} hth ↦ by
      have hsane := inv.sane t
      rw [hth] at hsane
      exact hsane.1
    released := fun {t} hidle ↦ by
      rw [← inv.held, hidle]
      rfl
    active := fun hbusy hfree ↦ (Loader.exists_move hbusy (inv.held _)).resolve_right hfree
    awaited := fun hwaits ↦ by
      obtain ⟨u, hu, hpos⟩ := Lock.exists_of_acquire_eq_none hwaits.2
      exact ⟨u, hu, hpos, inv.not_waits_of_pos hpos⟩ }

open Katello Loader in
set_option maxRecDepth 20000 in
/-- Two threads ask for the same view at once. The second one finds nothing, and gets what the first
one has built meanwhile. -/
theorem synchronized_race : ∃ s history n,
    Reachable sampleLoader (worldOf sampleDocument) s history ∧
    .returned 1 .early (.ok n) ∈ history ∧ s.threads 0 = .idle ∧
    Synchronized sampleLoader s history := by
  have hl : sampleLoader.Secluded :=
    (selfContained_of_decrypt (fun _ hask ↦ by cases hask) rfl rfl).secluded
  have hmade : sampleLoader.number < (worldOf sampleDocument).memos.size := Nat.zero_lt_one
  obtain ⟨n, w₁, hearly⟩ := exists_ok_of_succeeds
    (by decide +kernel : succeeds sampleLoader.earlyConfig (worldOf sampleDocument) = true)
  have hknown : ViewName.early.known (w₁.memo sampleLoader.number) = some n :=
    known_of_viewed hl hmade hearly
  -- both look before one of them takes the lock
  have hstart : Reachable sampleLoader (worldOf sampleDocument) _ _ := .start
  have hasked := (hstart.step (.call 0 .early rfl)).step (.call 1 .early rfl)
  have hmissed := hasked.step (.move 1 (.missed rfl))
  have hacquired : Lock.free.acquire 0 = some (.held 0 0) := rfl
  have hends : EndsWith (sampleLoader.viewed .early) (worldOf sampleDocument) (.ok n) w₁ := hearly
  obtain ⟨history, hbuilt⟩ :=
    hmissed.alone (alone_viewed hl 0 .early .outermost hmade hacquired hends).1
  have htaken := hbuilt.step (.move 1 (.acquired rfl))
  have hpresent := htaken.step (.move 1 (.present hknown))
  have hfetched := hpresent.step (.move 1 (.fetched hknown))
  have hreturned := hfetched.step (.move 1 (.released rfl))
  exact ⟨_, _, n, hreturned, List.mem_cons_self, rfl, hreturned.synchronized hl hmade rfl⟩

end System

end LayeredConfig
