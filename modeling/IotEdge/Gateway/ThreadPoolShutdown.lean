import IotEdge.Gateway.ThreadPoolWakeup

/-!
# Destroying the pool

The header says that `threadpool_destroy` waits until all tasks have been
executed.  A worker tests `shutdown` after every wait and before it looks at the
ring, so once the flag is set no task is taken any more: the running ones are
finished, the queued ones are dropped.

`executed_iff_count_eq_zero` is the exact condition.  When `threadpool_destroy`
returns `0`, every accepted task has been executed once just when the ring was
empty at the moment the flag was set.
-/

namespace IotEdge.ThreadPool

variable {n : Nat} {ι : Type}

/-- The task at position `k` was called once and the call returned once. -/
def ExecutedOnce (s : State ι n) (k : Nat) : Prop :=
  (s.started.map Start.serial).count k = 1 ∧ s.finished.count k = 1

/-- Every accepted task was executed exactly once. -/
def AllExecuted (s : State ι n) : Prop :=
  ∀ k, k < s.accepted.length → ExecutedOnce s k

/-- The tasks that were taken. -/
structure DoneInv (s : State ι n) : Prop where
  /-- A task that was taken is finished or in the hands of a worker. -/
  total : ∀ k, k < s.dequeued.length →
    k ∈ s.finished ∨ ∃ w t, (s.workers w).task? = some (k, t)
  /-- No call returns twice. -/
  nodup : s.finished.Nodup
  /-- A task in the hands of a worker is not finished. -/
  unfinished : ∀ w k t, (s.workers w).task? = some (k, t) → k ∉ s.finished
  /-- A running task was called. -/
  running : ∀ w k t, s.workers w = .running k t → k ∈ s.started.map Start.serial
  /-- A finished task was called. -/
  called : ∀ k, k ∈ s.finished → k ∈ s.started.map Start.serial
  /-- `threadpool_destroy` returns when every worker has left. -/
  returned : s.destroyer = .returned → ∀ w, s.workers w = .exited

theorem doneInv_start [NeZero n] (memory : Fin n → Task) : DoneInv (start ι n memory) where
  total := by simp [start]
  nodup := by simp [start]
  unfinished := by simp [start]
  running := by simp [start]
  called := by simp [start]
  returned := by simp [start]

/-- When every worker has left, the executed tasks are the dequeued ones. -/
theorem executedOnce_iff {s : State ι n} (he : ExecInv s) (h : DoneInv s)
    (hret : s.destroyer = .returned) (k : Nat) : ExecutedOnce s k ↔ k < s.dequeued.length := by
  constructor
  · rintro ⟨-, hfin⟩
    have hmem : k ∈ s.finished := List.count_pos_iff.mp (by omega)
    exact he.serial_lt (h.called k hmem)
  · intro hk
    have hmem : k ∈ s.finished := by
      rcases h.total k hk with hdone | ⟨w, t, hw⟩
      · exact hdone
      · rw [h.returned hret w] at hw
        cases hw
    exact ⟨List.count_eq_one_of_mem he.nodup (h.called k hmem),
      List.count_eq_one_of_mem h.nodup hmem⟩

/-- A step that moves workers between places without a task. -/
theorem DoneInv.of_workers {s s' : State ι n} (h : DoneInv s) (hdeq : s'.dequeued = s.dequeued)
    (hstarted : s'.started = s.started) (hfin : s'.finished = s.finished)
    (hw : ∀ v, s'.workers v = s.workers v ∨
      ((s'.workers v).task? = none ∧ (s.workers v).task? = none))
    (hret : s'.destroyer = .returned → ∀ w, s'.workers w = .exited) : DoneInv s' := by
  have htask : ∀ v, (s'.workers v).task? = (s.workers v).task? := by
    intro v
    rcases hw v with heq | ⟨h1, h2⟩
    · rw [heq]
    · rw [h1, h2]
  refine ⟨fun k hk => ?_, hfin ▸ h.nodup, fun v k t hv => ?_, fun v k t hv => ?_, ?_, hret⟩
  · rw [hdeq] at hk
    rw [hfin]
    rcases h.total k hk with hdone | ⟨v, t, hv⟩
    · exact .inl hdone
    · exact .inr ⟨v, t, (htask v).trans hv⟩
  · rw [htask] at hv
    rw [hfin]
    exact h.unfinished v k t hv
  · rw [hstarted]
    rcases hw v with heq | ⟨hnone, -⟩
    · exact h.running v k t (heq ▸ hv)
    · rw [hv] at hnone
      cases hnone
  · rw [hfin, hstarted]
    exact h.called

variable [DecidableEq ι]

theorem WorkerPc.task?_of_contends {pc : WorkerPc} (h : pc.contends = true) : pc.task? = none := by
  cases pc with
  | holding => cases h
  | running => cases h
  | _ => rfl

theorem WorkerPc.ne_exited_of_contends {pc : WorkerPc} (h : pc.contends = true) :
    pc ≠ .exited := by
  rintro rfl
  cases h

/-- One worker moves between places without a task. -/
theorem update_or_task? {workers : ι → WorkerPc} {w : ι} {pc : WorkerPc}
    (hpc : pc.task? = none) (hw : (workers w).task? = none) (v : ι) :
    Function.update workers w pc v = workers v ∨
      ((Function.update workers w pc v).task? = none ∧ (workers v).task? = none) := by
  by_cases hv : v = w
  · subst hv
    rw [Function.update_self]
    exact .inr ⟨hpc, hw⟩
  · exact .inl (Function.update_of_ne hv _ _)

/-- Sleepers are woken. -/
theorem wakeAll_or_task? [Fintype ι] {workers : ι → WorkerPc} {wake : Finset ι}
    (hwake : wake ⊆ waiters workers) (v : ι) :
    wakeAll workers wake v = workers v ∨
      ((wakeAll workers wake v).task? = none ∧ (workers v).task? = none) := by
  rw [wakeAll]
  by_cases hv : v ∈ wake
  · have hwait : workers v = .waiting := (Finset.mem_filter.mp (hwake hv)).2
    rw [if_pos hv, hwait]
    exact .inr ⟨rfl, rfl⟩
  · rw [if_neg hv]
    exact .inl rfl

/-! ## Every step -/

theorem DoneInv.after_take {s : State ι n} (h : DoneInv s) (he : ExecInv s) {w : ι}
    (hw : (s.workers w).contends = true) (pool : Pool n) (t : Task) :
    DoneInv { s with
      pool := pool
      workers := Function.update s.workers w (.holding s.dequeued.length t)
      dequeued := s.dequeued ++ [(w, t)] } := by
  refine ⟨fun k hk => ?_, h.nodup, fun v k u hv => ?_, fun v k u hv => ?_, h.called,
    fun hret => absurd (h.returned hret w) (WorkerPc.ne_exited_of_contends hw)⟩
  · rw [List.length_append, List.length_singleton] at hk
    by_cases hlast : k = s.dequeued.length
    · subst hlast
      exact .inr ⟨w, t, by simp [WorkerPc.task?]⟩
    · rcases h.total k (by omega) with hdone | ⟨v, u, hv⟩
      · exact .inl hdone
      · have hvw : v ≠ w := by
          rintro rfl
          rw [WorkerPc.task?_of_contends hw] at hv
          cases hv
        exact .inr ⟨v, u, by simpa only [Function.update_of_ne hvw] using hv⟩
  · by_cases hvw : v = w
    · subst hvw
      simp only [Function.update_self, WorkerPc.task?, Option.some.injEq, Prod.mk.injEq] at hv
      obtain ⟨rfl, -⟩ := hv
      exact fun hmem => absurd (he.serial_lt (h.called _ hmem)) (Nat.lt_irrefl _)
    · simp only [Function.update_of_ne hvw] at hv
      exact h.unfinished v k u hv
  · by_cases hvw : v = w
    · subst hvw
      simp at hv
    · simp only [Function.update_of_ne hvw] at hv
      exact h.running v k u hv

theorem DoneInv.after_call {s : State ι n} (h : DoneInv s) {w : ι} {k : Nat} {t : Task}
    (hw : s.workers w = .holding k t) :
    DoneInv { s with
      workers := Function.update s.workers w (.running k t)
      started := s.started ++ [⟨w, k, t⟩] } := by
  have htask : ∀ v, (Function.update s.workers w (.running k t) v).task? = (s.workers v).task? := by
    intro v
    by_cases hvw : v = w
    · subst hvw
      rw [Function.update_self, hw]
      rfl
    · rw [Function.update_of_ne hvw]
  refine ⟨fun j hj => ?_, h.nodup, fun v j u hv => ?_, fun v j u hv => ?_, fun j hj => ?_,
    fun hret => absurd (h.returned hret w) (by rw [hw]; simp)⟩
  · rcases h.total j hj with hdone | ⟨v, u, hv⟩
    · exact .inl hdone
    · exact .inr ⟨v, u, (htask v).trans hv⟩
  · exact h.unfinished v j u ((htask v).symm.trans hv)
  · rw [List.map_append, List.mem_append]
    by_cases hvw : v = w
    · subst hvw
      simp only [Function.update_self, WorkerPc.running.injEq] at hv
      exact .inr (by simp [hv.1])
    · simp only [Function.update_of_ne hvw] at hv
      exact .inl (h.running v j u hv)
  · rw [List.map_append, List.mem_append]
    exact .inl (h.called j hj)

theorem DoneInv.after_finish {s : State ι n} (h : DoneInv s) (he : ExecInv s) {w : ι} {k : Nat}
    {t : Task} (hw : s.workers w = .running k t) :
    DoneInv { s with
      workers := Function.update s.workers w .atLock
      finished := s.finished ++ [k] } := by
  have htask := WorkerPc.task?_of_running hw
  refine ⟨fun j hj => ?_, ?_, fun v j u hv => ?_, fun v j u hv => ?_, fun j hj => ?_,
    fun hret => absurd (h.returned hret w) (by rw [hw]; simp)⟩
  · rw [List.mem_append, List.mem_singleton]
    rcases h.total j hj with hdone | ⟨v, u, hv⟩
    · exact .inl (.inl hdone)
    · by_cases hvw : v = w
      · subst hvw
        rw [htask, Option.some.injEq, Prod.mk.injEq] at hv
        exact .inl (.inr hv.1.symm)
      · exact .inr ⟨v, u, by simpa only [Function.update_of_ne hvw] using hv⟩
  · rw [List.nodup_append]
    refine ⟨h.nodup, List.nodup_singleton _, fun a ha b hb => ?_⟩
    rw [List.mem_singleton] at hb
    subst hb
    exact fun hab => h.unfinished w _ t htask (hab ▸ ha)
  · have hvw : v ≠ w := by
      rintro rfl
      simp [WorkerPc.task?] at hv
    simp only [Function.update_of_ne hvw] at hv
    rw [List.mem_append, List.mem_singleton]
    rintro (hmem | rfl)
    · exact h.unfinished v j u hv hmem
    · exact hvw (he.held_inj hv htask)
  · have hvw : v ≠ w := by
      rintro rfl
      simp at hv
    simp only [Function.update_of_ne hvw] at hv
    exact h.running v j u hv
  · rcases List.mem_append.mp hj with hj | hj
    · exact h.called j hj
    · rw [List.mem_singleton.mp hj]
      exact h.running w k t hw

variable [NeZero n] [Fintype ι]

theorem DoneInv.step {s s' : State ι n} {a : Action ι} (h : DoneInv s) (he : ExecInv s)
    (hs : Step s a s') : DoneInv s' := by
  cases hs with
  | @added task wake _ _ hsig =>
      refine h.of_workers rfl rfl rfl (wakeAll_or_task? hsig.1) fun hret v => ?_
      have hnot : v ∉ wake := fun hv => by
        have hwait := mem_waiters.mp (hsig.1 hv)
        rw [h.returned hret v] at hwait
        cases hwait
      exact (if_neg hnot).trans (h.returned hret v)
  | refused | destroyedAgain _ => exact h
  | slept hw _ | left hw _ =>
      refine h.of_workers rfl rfl rfl (update_or_task? rfl (WorkerPc.task?_of_contends hw)) ?_
      exact fun hret => absurd (h.returned hret _) (WorkerPc.ne_exited_of_contends hw)
  | took hw _ _ => exact h.after_take he hw _ _
  | woke hw =>
      refine h.of_workers rfl rfl rfl (update_or_task? rfl (by rw [hw]; rfl)) ?_
      exact fun hret => absurd (h.returned hret _) (by rw [hw]; simp)
  | called hw => exact h.after_call hw
  | finished hw => exact h.after_finish he hw
  | destroyed _ =>
      exact h.of_workers rfl rfl rfl (wakeAll_or_task? (le_refl _)) fun hret => by cases hret
  | joined hall => exact h.of_workers rfl rfl rfl (fun _ => .inl rfl) fun _ => hall

theorem DoneInv.of_reachable {memory : Fin n → Task} {s : State ι n}
    (h : (machine ι n memory).Reachable s) : QueueInv s ∧ ExecInv s ∧ DoneInv s :=
  h.invariant (I := fun s => QueueInv s ∧ ExecInv s ∧ DoneInv s)
    ⟨queueInv_start _, execInv_start _, doneInv_start _⟩ fun hi hs =>
      ⟨hi.1.step (step_cases hs), hi.2.1.step (step_cases hs), hi.2.2.step hi.2.1 (step_cases hs)⟩

/-! ## What is left in the ring -/

/-- Once `shutdown` is set nothing enters or leaves the ring. -/
theorem Step.frozen {s s' : State ι n} {a : Action ι} (hs : Step s a s')
    (hshut : s.pool.shutdown = true) :
    s'.pool.shutdown = true ∧ s'.accepted = s.accepted ∧ s'.dequeued = s.dequeued := by
  cases hs with
  | added _ hopen _ | took _ _ hopen | destroyed hopen =>
      rw [hshut] at hopen
      cases hopen
  | _ => exact ⟨hshut, rfl, rfl⟩

/-- Once `shutdown` is set nothing enters or leaves the ring, along any run. -/
theorem frozen_of_run {memory : Fin n → Task} {as : List (Action ι)} {s s' : State ι n}
    (hshut : s.pool.shutdown = true) (hrun : (machine ι n memory).runFrom s as = some s') :
    s'.accepted = s.accepted ∧ s'.dequeued = s.dequeued := by
  have hkeep := Machine.runFrom_induction
    (I := fun t => t.pool.shutdown = true ∧ t.accepted = s.accepted ∧ t.dequeued = s.dequeued)
    (fun hi ht => by
      obtain ⟨h1, h2, h3⟩ := (step_cases ht).frozen hi.1
      exact ⟨h1, h2.trans hi.2.1, h3.trans hi.2.2⟩)
    ⟨hshut, rfl, rfl⟩ hrun
  exact hkeep.2

/-- When `threadpool_destroy` returns `0`, every accepted task was executed
exactly once just when no task was queued when it set `shutdown`. -/
theorem executed_iff_count_eq_zero {memory : Fin n → Task} {as bs : List (Action ι)}
    {s₀ s : State ι n} (hrun : (machine ι n memory).run as = some s₀)
    (hrest : (machine ι n memory).runFrom s₀ (.destroy :: bs) = some s)
    (hret : s.destroyer = .returned) : AllExecuted s ↔ s₀.pool.count = 0 := by
  have hr : (machine ι n memory).Reachable s := by
    refine ⟨as ++ .destroy :: bs, ?_⟩
    rw [Machine.run_append, hrun]
    exact hrest
  obtain ⟨hq, -, -⟩ := DoneInv.of_reachable (Machine.Reachable.of_run hrun)
  obtain ⟨-, he, hd⟩ := DoneInv.of_reachable hr
  obtain ⟨s₁, hdestroy, hrest⟩ := Machine.runFrom_cons_eq_some.mp hrest
  have hs₁ : s₁.pool.shutdown = true ∧ s₁.accepted = s₀.accepted ∧ s₁.dequeued = s₀.dequeued := by
    have hst : Step s₀ .destroy s₁ := step_cases hdestroy
    cases hst with
    | destroyed _ => exact ⟨rfl, rfl, rfl⟩
    | destroyedAgain hshut => exact ⟨hshut, rfl, rfl⟩
  obtain ⟨hacc, hdeq⟩ := frozen_of_run hs₁.1 hrest
  have hnonneg := hq.valid.nonneg
  have hlen : (s.accepted.length : ℤ) = s.dequeued.length + s₀.pool.count := by
    rw [hacc, hdeq, hs₁.2.1, hs₁.2.2, hq.contents, List.length_append, List.length_map,
      Pool.contents, Circular.length_window]
    omega
  constructor
  · intro hall
    by_contra hne
    have hlast := hall s.dequeued.length (by omega)
    exact absurd ((executedOnce_iff he hd hret _).mp hlast) (Nat.lt_irrefl _)
  · intro hzero k hk
    exact (executedOnce_iff he hd hret k).mpr (by omega)

/-- The only task is executed before `shutdown` is set. -/
theorem executed_iff_count_eq_zero_idle :
    ∃ s, (machine Unit 1 fun _ => ⟨0, 0⟩).run ([.add ⟨1, 5⟩ ∅, .acquire (), .call (), .finish ()] ++
        [.destroy, .acquire (), .joined]) = some s ∧ AllExecuted s := by
  have hbefore : ((machine Unit 1 fun _ => ⟨0, 0⟩).run [.add ⟨1, 5⟩ ∅, .acquire (), .call (),
      .finish ()]).map (fun s => s.pool.count) = some 0 := by decide
  have hafter : ((machine Unit 1 fun _ => ⟨0, 0⟩).run ([.add ⟨1, 5⟩ ∅, .acquire (), .call (),
      .finish ()] ++ [.destroy, .acquire (), .joined])).map State.destroyer = some .returned := by
    decide
  obtain ⟨s, hs, hret⟩ := Option.map_eq_some_iff.mp hafter
  obtain ⟨s₀, hs₀, hrest⟩ := Machine.exists_run_of_append hs
  rw [hs₀, Option.map_some, Option.some.injEq] at hbefore
  exact ⟨s, hs, (executed_iff_count_eq_zero hs₀ hrest hret).mpr hbefore⟩

/-- A task that is queued when `shutdown` is set is never executed. -/
theorem queued_task_dropped :
    ¬ ∀ s, (machine Unit 1 fun _ => ⟨0, 0⟩).Reachable s → s.destroyer = .returned →
      AllExecuted s := by
  intro h
  have hrun : ((machine Unit 1 fun _ => ⟨0, 0⟩).run [.add ⟨1, 5⟩ ∅, .destroy, .acquire (),
      .joined]).map (fun s => (s.destroyer, s.accepted.length, s.finished)) =
        some (.returned, 1, []) := by decide
  obtain ⟨s, hs, heq⟩ := Option.map_eq_some_iff.mp hrun
  obtain ⟨hret, hacc, hfin⟩ : s.destroyer = .returned ∧ s.accepted.length = 1 ∧
      s.finished = [] := by
    simpa only [Prod.mk.injEq] using heq
  have hexec := (h s ⟨_, hs⟩ hret 0 (by omega)).2
  rw [hfin] at hexec
  cases hexec

end IotEdge.ThreadPool
