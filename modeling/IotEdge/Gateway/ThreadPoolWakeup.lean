import IotEdge.Gateway.ThreadPoolQueue

/-!
# No lost wake-up

`threadpool_add` signals once for each task, and a worker that is not asleep may
take a task before the sleeper that was woken for it.  The count that survives
is: while some worker sleeps unsignalled, every queued task has a woken worker
that will still test the ring.  A signal wakes one more when a task is added,
a woken worker that leaves the set either takes a task with it or found the ring
empty, and a worker that goes to sleep found the ring empty.
-/

namespace IotEdge.ThreadPool

variable {n : Nat} [NeZero n] {ι : Type} [Fintype ι]

/-- While a worker sleeps, the queued tasks have woken workers. -/
def WakeInv (s : State ι n) : Prop :=
  s.pool.shutdown = false → (waiters s.workers).Nonempty →
    s.pool.count ≤ (wokenWorkers s.workers).card

theorem wakeInv_start (memory : Fin n → Task) : WakeInv (start ι n memory) :=
  fun _ _ => Int.natCast_nonneg _

/-! ## The two populations after a step -/

section Populations

theorem mem_waiters {workers : ι → WorkerPc} {w : ι} :
    w ∈ waiters workers ↔ workers w = .waiting := by
  simp [waiters]

theorem mem_wokenWorkers {workers : ι → WorkerPc} {w : ι} :
    w ∈ wokenWorkers workers ↔ workers w = .woken := by
  simp [wokenWorkers]

variable [DecidableEq ι]

/-- A signal only takes sleepers away. -/
theorem waiters_wakeAll_subset (workers : ι → WorkerPc) (wake : Finset ι) :
    waiters (wakeAll workers wake) ⊆ waiters workers := by
  intro w hw
  rw [mem_waiters, wakeAll] at hw
  split at hw
  · cases hw
  · exact mem_waiters.mpr hw

/-- The signalled sleepers join the woken workers. -/
theorem wokenWorkers_wakeAll (workers : ι → WorkerPc) (wake : Finset ι) :
    wokenWorkers (wakeAll workers wake) = wokenWorkers workers ∪ wake := by
  ext w
  rw [Finset.mem_union, mem_wokenWorkers, mem_wokenWorkers, wakeAll]
  by_cases hw : w ∈ wake
  · simp [hw]
  · simp [hw]

/-- A signal that wakes somebody makes the woken workers more. -/
theorem card_wokenWorkers_lt {workers : ι → WorkerPc} {wake : Finset ι}
    (hsub : wake ⊆ waiters workers) (hne : wake.Nonempty) :
    (wokenWorkers workers).card < (wokenWorkers (wakeAll workers wake)).card := by
  have hdisj : Disjoint (wokenWorkers workers) wake := by
    rw [Finset.disjoint_left]
    intro w hwoken hwake
    have hwait := mem_waiters.mp (hsub hwake)
    rw [mem_wokenWorkers.mp hwoken] at hwait
    cases hwait
  rw [wokenWorkers_wakeAll, Finset.card_union_of_disjoint hdisj]
  exact Nat.lt_add_of_pos_right (Finset.card_pos.mpr hne)

/-- A worker that moves to a place other than `woken` takes at most itself from
the woken workers. -/
theorem card_wokenWorkers_update (workers : ι → WorkerPc) (w : ι) (pc : WorkerPc) :
    (wokenWorkers workers).card ≤ (wokenWorkers (Function.update workers w pc)).card + 1 := by
  have hsub : (wokenWorkers workers).erase w ⊆ wokenWorkers (Function.update workers w pc) := by
    intro v hv
    rw [Finset.mem_erase, mem_wokenWorkers] at hv
    rw [mem_wokenWorkers, Function.update_of_ne hv.1]
    exact hv.2
  have hle := Finset.card_le_card hsub
  have herase := Finset.pred_card_le_card_erase (s := wokenWorkers workers) (a := w)
  omega

/-- A worker that was not woken leaves the woken workers as they are. -/
theorem wokenWorkers_subset_update {workers : ι → WorkerPc} {w : ι} {old : WorkerPc}
    (pc : WorkerPc) (hw : workers w = old) (hold : old ≠ .woken) :
    wokenWorkers workers ⊆ wokenWorkers (Function.update workers w pc) := by
  intro v hv
  rw [mem_wokenWorkers] at hv
  have hvw : v ≠ w := by
    rintro rfl
    exact hold (hw.symm.trans hv)
  rw [mem_wokenWorkers, Function.update_of_ne hvw]
  exact hv

/-- A worker that moves to a place other than `waiting` adds no sleeper. -/
theorem waiters_update_subset {workers : ι → WorkerPc} {w : ι} {pc : WorkerPc}
    (hpc : pc ≠ .waiting) : waiters (Function.update workers w pc) ⊆ waiters workers := by
  intro v hv
  rw [mem_waiters] at hv ⊢
  by_cases hvw : v = w
  · subst hvw
    rw [Function.update_self] at hv
    exact absurd hv hpc
  · rwa [Function.update_of_ne hvw] at hv

end Populations

/-! ## Every step -/

variable [DecidableEq ι]

theorem WakeInv.step {s s' : State ι n} {a : Action ι} (h : WakeInv s) (hs : Step s a s') :
    WakeInv s' := by
  intro hshut hwait
  cases hs with
  | @added _ wake _ _ hsig =>
      have hne := hwait.mono (waiters_wakeAll_subset _ _)
      have hcount := h hshut hne
      have hlt := card_wokenWorkers_lt hsig.1 (hsig.2 hne)
      show s.pool.count + 1 ≤ ((wokenWorkers (wakeAll s.workers wake)).card : ℤ)
      omega
  | refused | destroyedAgain _ | joined _ => exact h hshut hwait
  | slept _ hempty =>
      show s.pool.count ≤ _
      rw [hempty]
      exact Int.natCast_nonneg _
  | left _ hshut' => exact absurd (hshut'.symm.trans hshut) (by decide)
  | @took w _ _ _ =>
      have hcount := h hshut (hwait.mono (waiters_update_subset (by simp)))
      have hle := card_wokenWorkers_update s.workers w (.holding s.dequeued.length s.pool.front)
      show s.pool.count - 1 ≤ ((wokenWorkers (Function.update s.workers w _)).card : ℤ)
      omega
  | woke hw =>
      have hcount := h hshut (hwait.mono (waiters_update_subset (by simp)))
      have hsub := wokenWorkers_subset_update .woken hw (by simp)
      exact hcount.trans (Int.ofNat_le.mpr (Finset.card_le_card hsub))
  | @called w k t hw =>
      have hcount := h hshut (hwait.mono (waiters_update_subset (by simp)))
      have hsub := wokenWorkers_subset_update (.running k t) hw (by simp)
      exact hcount.trans (Int.ofNat_le.mpr (Finset.card_le_card hsub))
  | finished hw =>
      have hcount := h hshut (hwait.mono (waiters_update_subset (by simp)))
      have hsub := wokenWorkers_subset_update .atLock hw (by simp)
      exact hcount.trans (Int.ofNat_le.mpr (Finset.card_le_card hsub))
  | destroyed _ => cases hshut

theorem WakeInv.of_reachable {memory : Fin n → Task} {s : State ι n}
    (h : (machine ι n memory).Reachable s) : WakeInv s :=
  h.invariant (wakeInv_start memory) fun hi hs => hi.step (step_cases hs)

/-- In every reachable state with `shutdown` not set, if a worker sleeps
unsignalled then the queued tasks are at most the workers that were signalled or
woken and have not tested the ring again.  So if there are workers and all of
them sleep, nothing is queued. -/
theorem threadpool_no_lost_wakeup {memory : Fin n → Task} {s : State ι n}
    (h : (machine ι n memory).Reachable s) (hshut : s.pool.shutdown = false) :
    ((∃ w, s.workers w = .waiting) → s.pool.count ≤ (wokenWorkers s.workers).card) ∧
      (Nonempty ι → (∀ w, s.workers w = .waiting) → s.pool.count = 0) := by
  have hwake := WakeInv.of_reachable h
  have hnonneg := (invariants_of_reachable h).1.valid.nonneg
  refine ⟨fun ⟨w, hw⟩ => hwake hshut ⟨w, mem_waiters.mpr hw⟩, fun ⟨w⟩ hall => ?_⟩
  have hcount := hwake hshut ⟨w, mem_waiters.mpr (hall w)⟩
  have hnone : wokenWorkers s.workers = ∅ := by
    refine Finset.eq_empty_of_forall_notMem fun v hv => ?_
    rw [mem_wokenWorkers, hall v] at hv
    cases hv
  rw [hnone, Finset.card_empty] at hcount
  omega

/-- One of two sleepers is woken for a task. -/
theorem threadpool_no_lost_wakeup_signalled :
    ∃ s, (machine (Fin 2) 2 fun _ => ⟨0, 0⟩).run [.acquire 0, .acquire 1, .add ⟨1, 5⟩ {0}] = some s ∧
      s.pool.count ≤ (wokenWorkers s.workers).card := by
  have hrun : ((machine (Fin 2) 2 fun _ => ⟨0, 0⟩).run [.acquire 0, .acquire 1,
      .add ⟨1, 5⟩ {0}]).map (fun s => (s.pool.shutdown, s.workers 1)) = some (false, .waiting) := by
    decide
  obtain ⟨s, hs, heq⟩ := Option.map_eq_some_iff.mp hrun
  rw [Prod.mk.injEq] at heq
  exact ⟨s, hs, (threadpool_no_lost_wakeup ⟨_, hs⟩ heq.1).1 ⟨1, heq.2⟩⟩

end IotEdge.ThreadPool
