import IotEdge.Gateway.ThreadPool

/-!
# The task queue

`head`, `tail` and `count` say the same thing three times: the queued tasks are
the `count` slots from `head` on, and `tail` is just behind them.  `QueueInv`
adds that the accepted tasks are the dequeued ones followed by the queued ones.

`ExecInv` is about the tasks that left the queue.  A worker that holds or runs
task `k` is the one that dequeued it, and a task is started at most once because
it is started by the worker that holds it, which then no longer does.
-/

namespace IotEdge.ThreadPool

variable {n : Nat} {ι : Type}

/-! ## The ring -/

section Ring

variable [NeZero n]

/-- The queued tasks, first one first. -/
def Pool.contents (pool : Pool n) : List Task :=
  Circular.window pool.queue pool.head pool.count.toNat

/-- The three views of the ring agree. -/
structure Pool.Valid (pool : Pool n) : Prop where
  /-- `count` is a size. -/
  nonneg : 0 ≤ pool.count
  /-- It is bounded by `queue_size`. -/
  le : pool.count ≤ n
  /-- `tail` is `count` places after `head`. -/
  tail : pool.tail = Circular.index pool.head pool.count.toNat

/-- Putting a task into a ring that is not full appends it. -/
theorem Pool.Valid.add {pool : Pool n} (h : pool.Valid) (hfull : pool.count ≠ n) (task : Task) :
    let pool' : Pool n := { pool with
      queue := Function.update pool.queue pool.tail task
      tail := pool.tail + 1
      count := pool.count + 1 }
    pool'.Valid ∧ pool'.contents = pool.contents ++ [task] := by
  have hnonneg := h.nonneg
  have hle := h.le
  have hcount : (pool.count + 1).toNat = pool.count.toNat + 1 := by omega
  refine ⟨⟨?_, ?_, ?_⟩, ?_⟩
  · show 0 ≤ pool.count + 1
    omega
  · show pool.count + 1 ≤ n
    omega
  · show pool.tail + 1 = Circular.index pool.head (pool.count + 1).toNat
    rw [hcount, h.tail, Circular.index_add_one]
  · show Circular.window _ pool.head (pool.count + 1).toNat = _
    rw [hcount, h.tail]
    exact Circular.window_push _ _ (by omega) _

/-- Taking a task from a ring that is not empty takes the first one. -/
theorem Pool.Valid.take {pool : Pool n} (h : pool.Valid) (hempty : pool.count ≠ 0) :
    pool.take.Valid ∧ pool.contents = pool.front :: pool.take.contents := by
  have hnonneg := h.nonneg
  have hle := h.le
  have hcount : pool.count.toNat = (pool.count - 1).toNat + 1 := by omega
  refine ⟨⟨?_, ?_, ?_⟩, ?_⟩
  · show 0 ≤ pool.count - 1
    omega
  · show pool.count - 1 ≤ n
    omega
  · show pool.tail = Circular.index (pool.head + 1) (pool.count - 1).toNat
    rw [h.tail, hcount, Circular.index_succ]
  · show Circular.window _ _ _ = _
    rw [hcount, Circular.window_succ]
    rfl

/-- The accepted tasks are the dequeued ones and then those in a valid ring. -/
structure QueueInv (s : State ι n) : Prop where
  /-- The ring. -/
  valid : s.pool.Valid
  /-- Accepted tasks are dequeued or queued, in order. -/
  contents : s.accepted = s.dequeued.map Prod.snd ++ s.pool.contents

theorem queueInv_start (memory : Fin n → Task) : QueueInv (start ι n memory) where
  valid := ⟨le_refl _, Int.natCast_nonneg _, (Circular.index_zero _).symm⟩
  contents := rfl

end Ring

/-! ## The tasks of the workers -/

section Workers

theorem WorkerPc.task?_of_holding {pc : WorkerPc} {k : Nat} {t : Task} (h : pc = .holding k t) :
    pc.task? = some (k, t) := by
  rw [h]
  rfl

theorem WorkerPc.task?_of_running {pc : WorkerPc} {k : Nat} {t : Task} (h : pc = .running k t) :
    pc.task? = some (k, t) := by
  rw [h]
  rfl

/-- The tasks that left the ring. -/
structure ExecInv (s : State ι n) : Prop where
  /-- A worker holds or runs a task it dequeued. -/
  held : ∀ w k t, (s.workers w).task? = some (k, t) → s.dequeued[k]? = some (w, t)
  /-- A call is of a task its worker dequeued. -/
  started : ∀ e ∈ s.started, s.dequeued[e.serial]? = some (e.worker, e.task)
  /-- No task is called twice. -/
  nodup : (s.started.map Start.serial).Nodup
  /-- A task a worker still holds was not called. -/
  fresh : ∀ w k t, s.workers w = .holding k t → k ∉ s.started.map Start.serial

/-- A called task was dequeued. -/
theorem ExecInv.serial_lt {s : State ι n} (h : ExecInv s) {k : Nat}
    (hk : k ∈ s.started.map Start.serial) : k < s.dequeued.length := by
  obtain ⟨e, he, rfl⟩ := List.mem_map.mp hk
  exact (List.getElem?_eq_some_iff.mp (h.started e he)).1

/-- Two workers do not have the same task. -/
theorem ExecInv.held_inj {s : State ι n} (h : ExecInv s) {v w : ι} {k : Nat} {t u : Task}
    (hv : (s.workers v).task? = some (k, t)) (hw : (s.workers w).task? = some (k, u)) : v = w := by
  have heq := (h.held v k t hv).symm.trans (h.held w k u hw)
  rw [Option.some.injEq, Prod.mk.injEq] at heq
  exact heq.1

/-- A step that gives no worker a task and calls none. -/
theorem ExecInv.of_workers {s s' : State ι n} (h : ExecInv s) (hdeq : s'.dequeued = s.dequeued)
    (hstarted : s'.started = s.started)
    (hw : ∀ {v kt}, (s'.workers v).task? = some kt → s'.workers v = s.workers v) :
    ExecInv s' := by
  refine ⟨fun v k t hv => ?_, ?_, ?_, fun v k t hv => ?_⟩
  · rw [hdeq]
    exact h.held v k t (hw hv ▸ hv)
  · rw [hstarted, hdeq]
    exact h.started
  · rw [hstarted]
    exact h.nodup
  · rw [hstarted]
    have hold := hw (WorkerPc.task?_of_holding hv)
    exact h.fresh v k t (hold ▸ hv)

variable [DecidableEq ι]

/-- A worker that moves to a place without a task leaves the tasks of the others. -/
theorem update_of_task? {workers : ι → WorkerPc} {w v : ι} {pc : WorkerPc} {kt : Nat × Task}
    (hpc : pc.task? = none) (h : (Function.update workers w pc v).task? = some kt) :
    Function.update workers w pc v = workers v := by
  by_cases hv : v = w
  · subst hv
    rw [Function.update_self, hpc] at h
    cases h
  · exact Function.update_of_ne hv _ _

/-- Waking sleepers leaves the tasks of the others. -/
theorem wakeAll_of_task? {workers : ι → WorkerPc} {wake : Finset ι} {v : ι} {kt : Nat × Task}
    (h : (wakeAll workers wake v).task? = some kt) : wakeAll workers wake v = workers v := by
  rw [wakeAll] at h ⊢
  split at h
  · cases h
  next hv => exact if_neg hv

/-- A worker takes the next task. -/
theorem ExecInv.after_take {s : State ι n} (h : ExecInv s) (w : ι) (pool : Pool n) (t : Task) :
    ExecInv { s with
      pool := pool
      workers := Function.update s.workers w (.holding s.dequeued.length t)
      dequeued := s.dequeued ++ [(w, t)] } := by
  have hkeep : ∀ {k : Nat} {x : ι × Task}, s.dequeued[k]? = some x →
      (s.dequeued ++ [(w, t)])[k]? = some x := by
    intro k x hx
    rw [List.getElem?_append_left (List.getElem?_eq_some_iff.mp hx).1]
    exact hx
  refine ⟨fun v k u hv => ?_, fun e he => hkeep (h.started e he), h.nodup, fun v k u hv => ?_⟩
  · by_cases hvw : v = w
    · subst hvw
      simp only [Function.update_self, WorkerPc.task?, Option.some.injEq, Prod.mk.injEq] at hv
      obtain ⟨rfl, rfl⟩ := hv
      simp
    · simp only [Function.update_of_ne hvw] at hv
      exact hkeep (h.held v k u hv)
  · by_cases hvw : v = w
    · subst hvw
      simp only [Function.update_self, WorkerPc.holding.injEq] at hv
      obtain ⟨rfl, -⟩ := hv
      exact fun hmem => absurd (h.serial_lt hmem) (Nat.lt_irrefl _)
    · simp only [Function.update_of_ne hvw] at hv
      exact h.fresh v k u hv

/-- A worker calls the task it holds. -/
theorem ExecInv.after_call {s : State ι n} (h : ExecInv s) {w : ι} {k : Nat} {t : Task}
    (hw : s.workers w = .holding k t) :
    ExecInv { s with
      workers := Function.update s.workers w (.running k t)
      started := s.started ++ [⟨w, k, t⟩] } := by
  have hdeq := h.held w k t (WorkerPc.task?_of_holding hw)
  refine ⟨fun v j u hv => ?_, fun e he => ?_, ?_, fun v j u hv => ?_⟩
  · by_cases hvw : v = w
    · subst hvw
      simp only [Function.update_self, WorkerPc.task?, Option.some.injEq, Prod.mk.injEq] at hv
      obtain ⟨rfl, rfl⟩ := hv
      exact hdeq
    · simp only [Function.update_of_ne hvw] at hv
      exact h.held v j u hv
  · rcases List.mem_append.mp he with he | he
    · exact h.started e he
    · rw [List.mem_singleton.mp he]
      exact hdeq
  · rw [List.map_append, List.nodup_append]
    refine ⟨h.nodup, List.nodup_singleton _, fun a ha b hb => ?_⟩
    rw [List.map_singleton, List.mem_singleton] at hb
    subst hb
    exact fun hak => h.fresh w _ t hw (hak ▸ ha)
  · have hvw : v ≠ w := by
      rintro rfl
      simp at hv
    simp only [Function.update_of_ne hvw] at hv
    rw [List.map_append, List.mem_append]
    rintro (hmem | hmem)
    · exact h.fresh v j u hv hmem
    · rw [List.map_singleton, List.mem_singleton] at hmem
      subst hmem
      exact hvw (h.held_inj (WorkerPc.task?_of_holding hv) (WorkerPc.task?_of_holding hw))

end Workers

variable [NeZero n]

theorem execInv_start (memory : Fin n → Task) : ExecInv (start ι n memory) where
  held := by simp [start, WorkerPc.task?]
  started := by simp [start]
  nodup := by simp [start]
  fresh := by simp [start]

variable [Fintype ι] [DecidableEq ι]

theorem QueueInv.step {s s' : State ι n} {a : Action ι} (h : QueueInv s) (hs : Step s a s') :
    QueueInv s' := by
  cases hs with
  | @added task wake hfull _ _ =>
      obtain ⟨hvalid, hcon⟩ := h.valid.add hfull task
      refine ⟨hvalid, ?_⟩
      show s.accepted ++ [task] = _
      rw [h.contents, List.append_assoc]
      exact congrArg _ hcon.symm
  | took _ hempty _ =>
      obtain ⟨hvalid, hcon⟩ := h.valid.take hempty
      refine ⟨hvalid, ?_⟩
      simp only [h.contents, hcon, List.map_append, List.map_cons, List.map_nil,
        List.append_assoc, List.singleton_append]
  | destroyed _ => exact ⟨⟨h.valid.nonneg, h.valid.le, h.valid.tail⟩, h.contents⟩
  | refused | destroyedAgain _ => exact h
  | slept _ _ | left _ _ | woke _ | called _ | finished _ | joined _ => exact ⟨h.valid, h.contents⟩

theorem ExecInv.step {s s' : State ι n} {a : Action ι} (h : ExecInv s) (hs : Step s a s') :
    ExecInv s' := by
  cases hs with
  | added _ _ _ | destroyed _ => exact h.of_workers rfl rfl wakeAll_of_task?
  | refused | destroyedAgain _ => exact h
  | joined _ => exact h.of_workers rfl rfl fun _ => rfl
  | slept _ _ | left _ _ | woke _ | finished _ => exact h.of_workers rfl rfl (update_of_task? rfl)
  | took _ _ _ => exact h.after_take _ _ _
  | called hw => exact h.after_call hw

theorem invariants_of_reachable {memory : Fin n → Task} {s : State ι n}
    (h : (machine ι n memory).Reachable s) : QueueInv s ∧ ExecInv s :=
  h.invariant (I := fun s => QueueInv s ∧ ExecInv s) ⟨queueInv_start _, execInv_start _⟩
    fun hi hs => ⟨hi.1.step (step_cases hs), hi.2.step (step_cases hs)⟩

/-! ## The queue is FIFO -/

/-- In every reachable state the three indices agree, the dequeued tasks are the
first ones accepted, each call is of an accepted task and no task is called
twice, and `threadpool_add` refuses a task with a function only when
`queue_size` accepted tasks are still queued or `shutdown` is set. -/
theorem threadpool_fifo {memory : Fin n → Task} {s : State ι n}
    (h : (machine ι n memory).Reachable s) :
    (0 ≤ s.pool.count ∧ s.pool.count ≤ n) ∧
      ((s.pool.tail : ℕ) : ℤ) = ((s.pool.head : ℕ) + s.pool.count) % n ∧
      s.dequeued.map Prod.snd <+: s.accepted ∧
      (∀ e ∈ s.started, s.dequeued[e.serial]? = some (e.worker, e.task) ∧
        s.accepted[e.serial]? = some e.task) ∧
      (s.started.map Start.serial).Nodup ∧
      (∀ task : Task, task.function ≠ 0 → (threadpoolAdd s.pool task).1 ≠ 0 →
        s.accepted.length = s.dequeued.length + n ∨ s.pool.shutdown = true) := by
  obtain ⟨hq, he⟩ := invariants_of_reachable h
  have hnonneg := hq.valid.nonneg
  have hpre : s.dequeued.map Prod.snd <+: s.accepted := by
    rw [hq.contents]
    exact List.prefix_append _ _
  refine ⟨⟨hnonneg, hq.valid.le⟩, ?_, hpre, fun e hmem => ?_, he.nodup, fun task hnull hadd => ?_⟩
  · rw [hq.valid.tail, Circular.index_val]
    push_cast
    rw [Int.toNat_of_nonneg hnonneg]
  · have hdeq := he.started e hmem
    refine ⟨hdeq, ?_⟩
    have hmap : (s.dequeued.map Prod.snd)[e.serial]? = some e.task := by
      rw [List.getElem?_map, hdeq]
      rfl
    obtain ⟨hlt, heq⟩ := List.getElem?_eq_some_iff.mp hmap
    rw [List.prefix_iff_getElem?.mp hpre _ hlt, heq]
  · rcases threadpoolAdd_cases s.pool task with ⟨-, hwhy⟩ | ⟨heq, -, -⟩
    · rcases hwhy with hz | hfull | hshut
      · exact absurd hz hnull
      · left
        rw [hq.contents, List.length_append, List.length_map, Pool.contents,
          Circular.length_window, hfull, Int.toNat_natCast]
      · exact .inr hshut
    · exact absurd (by rw [heq]) hadd

/-- Two workers and two slots: one task runs, one is queued. -/
theorem threadpool_fifo_two :
    ∃ s, (machine (Fin 2) 2 fun _ => ⟨0, 0⟩).run [.acquire 0, .add ⟨1, 5⟩ {0}, .add ⟨1, 6⟩ ∅,
        .acquire 1, .call 1] = some s ∧
      s.started.length = 1 ∧ s.dequeued.map Prod.snd <+: s.accepted := by
  have hrun : ((machine (Fin 2) 2 fun _ => ⟨0, 0⟩).run [.acquire 0, .add ⟨1, 5⟩ {0},
      .add ⟨1, 6⟩ ∅, .acquire 1, .call 1]).map (fun s => s.started.length) = some 1 := by decide
  obtain ⟨s, hs, hlen⟩ := Option.map_eq_some_iff.mp hrun
  obtain ⟨-, -, hpre, -⟩ := threadpool_fifo ⟨_, hs⟩
  exact ⟨s, hs, hlen, hpre⟩

end IotEdge.ThreadPool
