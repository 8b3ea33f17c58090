import IotEdge.Lib.Machine
import IotEdge.Lib.Circular
import Mathlib.Data.Fintype.Basic
import Mathlib.Data.Finset.Card

/-!
# The thread pool

`thread_pool.c` keeps tasks in a ring of `queue_size` slots under one mutex.
`threadpool_add` puts a task in and signals the condition variable.  A worker
sleeps on it while the ring is empty and `shutdown` is not set, leaves when
`shutdown` is set, and otherwise takes the first task, releases the mutex and
runs it.  `threadpool_destroy` sets `shutdown`, wakes everybody and joins the
workers.

Every label is one critical section of the mutex or one step outside it.
`pthread_cond_wait` gives the mutex up and blocks in one go, so a worker's
critical section runs from taking the mutex, at the top of the loop or on the
way out of `pthread_cond_wait`, to sleeping, leaving or taking a task.  A label
of `threadpool_add` says which sleepers the signal wakes: at least one if there
is one.  A sleeper may also wake for no reason.  The calls of `pthread` succeed.

`accepted`, `dequeued`, `started` and `finished` record what happened.  A task is
named by its position in `accepted`.
-/

namespace IotEdge.ThreadPool

/-- A pointer; `0` is `NULL`. -/
abbrev Ptr := Nat

/-- `threadpool_task_t`. -/
structure Task where
  /-- The function to call. -/
  function : Ptr
  /-- Its argument. -/
  argument : Ptr
deriving DecidableEq, Repr

/-- `struct threadpool_t`, without the mutex, the condition variable and the
thread handles.  `n` is `queue_size`. -/
structure Pool (n : Nat) where
  /-- The ring. -/
  queue : Fin n → Task
  /-- Where the next task is taken. -/
  head : Fin n
  /-- Where the next task is put. -/
  tail : Fin n
  /-- The number of queued tasks. -/
  count : Int
  /-- Whether the pool is being destroyed. -/
  shutdown : Bool

variable {n : Nat} [NeZero n]

/-- The critical section of `threadpool_add`, with its return value. -/
def threadpoolAdd (pool : Pool n) (task : Task) : Int × Pool n :=
  if task.function = 0 then (-1, pool)
  else if pool.count = n then (-1, pool)
  else if pool.shutdown then (-1, pool)
  else (0, { pool with
    queue := Function.update pool.queue pool.tail task
    tail := pool.tail + 1
    count := pool.count + 1 })

/-- The task a worker takes. -/
def Pool.front (pool : Pool n) : Task := pool.queue pool.head

/-- What taking it does to the pool. -/
def Pool.take (pool : Pool n) : Pool n :=
  { pool with head := pool.head + 1, count := pool.count - 1 }

/-- Where a worker is. -/
inductive WorkerPc where
  /-- At `pthread_mutex_lock`, at the top of the loop. -/
  | atLock
  /-- In `pthread_cond_wait`, not signalled. -/
  | waiting
  /-- Signalled or woken, still in `pthread_cond_wait` to get the mutex back. -/
  | woken
  /-- Outside, with a task to call: the task and its position in `accepted`. -/
  | holding (serial : Nat) (task : Task)
  /-- In the call. -/
  | running (serial : Nat) (task : Task)
  /-- After `pthread_exit`. -/
  | exited
deriving DecidableEq, Repr

/-- Whether the worker is about to take the mutex. -/
def WorkerPc.contends : WorkerPc → Bool
  | .atLock | .woken => true
  | _ => false

/-- The task a worker has taken and not finished. -/
def WorkerPc.task? : WorkerPc → Option (Nat × Task)
  | .holding k t | .running k t => some (k, t)
  | _ => none

/-- Where the caller of `threadpool_destroy` is. -/
inductive DestroyPc where
  /-- Before its critical section. -/
  | idle
  /-- Joining the workers. -/
  | joining
  /-- Returned `0`; the pool is freed. -/
  | returned
deriving DecidableEq, Repr

/-- One call of a task. -/
structure Start (ι : Type) where
  /-- Who called it. -/
  worker : ι
  /-- The position of the task in `accepted`. -/
  serial : Nat
  /-- What was called. -/
  task : Task

/-- The pool, its workers `ι` and the caller of `threadpool_destroy`. -/
structure State (ι : Type) (n : Nat) where
  /-- The pool. -/
  pool : Pool n
  /-- The workers. -/
  workers : ι → WorkerPc
  /-- The caller of `threadpool_destroy`. -/
  destroyer : DestroyPc
  /-- The tasks for which `threadpool_add` returned `0`, in order. -/
  accepted : List Task
  /-- The tasks taken out, in order, with who took them. -/
  dequeued : List (ι × Task)
  /-- The calls made, in order. -/
  started : List (Start ι)
  /-- The positions of the tasks whose call returned, in order. -/
  finished : List Nat

/-- The labels. -/
inductive Action (ι : Type) where
  /-- A call of `threadpool_add`, and the sleepers its signal wakes. -/
  | add (task : Task) (wake : Finset ι)
  /-- A worker's critical section. -/
  | acquire (w : ι)
  /-- A sleeper wakes for no reason. -/
  | spurious (w : ι)
  /-- A worker calls its task. -/
  | call (w : ι)
  /-- The call returns. -/
  | finish (w : ι)
  /-- The critical section of `threadpool_destroy`. -/
  | destroy
  /-- `threadpool_destroy` has joined every worker and returns `0`. -/
  | joined

variable {ι : Type} [Fintype ι] [DecidableEq ι]

/-- The sleepers that are not signalled. -/
def waiters (workers : ι → WorkerPc) : Finset ι :=
  Finset.univ.filter fun w => workers w = .waiting

/-- The workers that were signalled or woken and have not tested the ring again. -/
def wokenWorkers (workers : ι → WorkerPc) : Finset ι :=
  Finset.univ.filter fun w => workers w = .woken

/-- Wake the workers in `wake`. -/
def wakeAll (workers : ι → WorkerPc) (wake : Finset ι) : ι → WorkerPc :=
  fun w => if w ∈ wake then .woken else workers w

/-- `pthread_cond_signal` may wake `wake`: only sleepers, and one if there is one. -/
def MaySignal (workers : ι → WorkerPc) (wake : Finset ι) : Prop :=
  wake ⊆ waiters workers ∧ ((waiters workers).Nonempty → wake.Nonempty)

instance (workers : ι → WorkerPc) (wake : Finset ι) : Decidable (MaySignal workers wake) :=
  inferInstanceAs (Decidable (_ ∧ (_ → _)))

/-- One step. -/
def step (s : State ι n) : Action ι → Option (State ι n)
  | .add task wake =>
      if s.destroyer = .returned then none
      else if (threadpoolAdd s.pool task).1 = 0 then
        if MaySignal s.workers wake then
          some { s with
            pool := (threadpoolAdd s.pool task).2
            workers := wakeAll s.workers wake
            accepted := s.accepted ++ [task] }
        else none
      else if wake = ∅ then some { s with pool := (threadpoolAdd s.pool task).2 }
      else none
  | .acquire w =>
      if (s.workers w).contends then
        -- the test of the inner `while`, and then of `shutdown`
        if s.pool.count = 0 ∧ s.pool.shutdown = false then
          some { s with workers := Function.update s.workers w .waiting }
        else if s.pool.shutdown then
          some { s with workers := Function.update s.workers w .exited }
        else some { s with
          pool := s.pool.take
          workers := Function.update s.workers w (.holding s.dequeued.length s.pool.front)
          dequeued := s.dequeued ++ [(w, s.pool.front)] }
      else none
  | .spurious w =>
      if s.workers w = .waiting then
        some { s with workers := Function.update s.workers w .woken }
      else none
  | .call w =>
      match s.workers w with
      | .holding k t => some { s with
          workers := Function.update s.workers w (.running k t)
          started := s.started ++ [⟨w, k, t⟩] }
      | _ => none
  | .finish w =>
      match s.workers w with
      | .running k _ => some { s with
          workers := Function.update s.workers w .atLock
          finished := s.finished ++ [k] }
      | _ => none
  | .destroy =>
      if s.destroyer = .returned then none
      else if s.pool.shutdown then some s
      else some { s with
        pool := { s.pool with shutdown := true }
        workers := wakeAll s.workers (waiters s.workers)
        destroyer := .joining }
  | .joined =>
      if s.destroyer = .joining ∧ ∀ w, s.workers w = .exited then
        some { s with destroyer := .returned }
      else none

/-- The state after `threadpool_create`.  `malloc` leaves `queue` as it finds it. -/
def start (ι : Type) (n : Nat) [NeZero n] (memory : Fin n → Task) : State ι n where
  pool := { queue := memory, head := 0, tail := 0, count := 0, shutdown := false }
  workers := fun _ => .atLock
  destroyer := .idle
  accepted := []
  dequeued := []
  started := []
  finished := []

/-- A pool with workers `ι` and `n` slots. -/
def machine (ι : Type) [Fintype ι] [DecidableEq ι] (n : Nat) [NeZero n]
    (memory : Fin n → Task) : Machine (State ι n) (Action ι) :=
  ⟨start ι n memory, step⟩

/-! ## The transitions -/

/-- The transitions of `step`, one constructor for each outcome. -/
inductive Step (s : State ι n) : Action ι → State ι n → Prop where
  | added {task : Task} {wake : Finset ι} :
      s.pool.count ≠ n → s.pool.shutdown = false → MaySignal s.workers wake →
      Step s (.add task wake) { s with
        pool := { s.pool with
          queue := Function.update s.pool.queue s.pool.tail task
          tail := s.pool.tail + 1
          count := s.pool.count + 1 }
        workers := wakeAll s.workers wake
        accepted := s.accepted ++ [task] }
  | refused {task : Task} {wake : Finset ι} : Step s (.add task wake) s
  | slept {w : ι} :
      (s.workers w).contends = true → s.pool.count = 0 →
      Step s (.acquire w) { s with workers := Function.update s.workers w .waiting }
  | left {w : ι} :
      (s.workers w).contends = true → s.pool.shutdown = true →
      Step s (.acquire w) { s with workers := Function.update s.workers w .exited }
  | took {w : ι} :
      (s.workers w).contends = true → s.pool.count ≠ 0 → s.pool.shutdown = false →
      Step s (.acquire w) { s with
        pool := s.pool.take
        workers := Function.update s.workers w (.holding s.dequeued.length s.pool.front)
        dequeued := s.dequeued ++ [(w, s.pool.front)] }
  | woke {w : ι} :
      s.workers w = .waiting →
      Step s (.spurious w) { s with workers := Function.update s.workers w .woken }
  | called {w : ι} {k : Nat} {t : Task} :
      s.workers w = .holding k t →
      Step s (.call w) { s with
        workers := Function.update s.workers w (.running k t)
        started := s.started ++ [⟨w, k, t⟩] }
  | finished {w : ι} {k : Nat} {t : Task} :
      s.workers w = .running k t →
      Step s (.finish w) { s with
        workers := Function.update s.workers w .atLock
        finished := s.finished ++ [k] }
  | destroyed :
      s.pool.shutdown = false →
      Step s .destroy { s with
        pool := { s.pool with shutdown := true }
        workers := wakeAll s.workers (waiters s.workers)
        destroyer := .joining }
  | destroyedAgain : s.pool.shutdown = true → Step s .destroy s
  | joined :
      (∀ w, s.workers w = .exited) → Step s .joined { s with destroyer := .returned }

theorem threadpoolAdd_cases (pool : Pool n) (task : Task) :
    (threadpoolAdd pool task = (-1, pool) ∧
        (task.function = 0 ∨ pool.count = n ∨ pool.shutdown = true)) ∨
      (threadpoolAdd pool task = (0, { pool with
          queue := Function.update pool.queue pool.tail task
          tail := pool.tail + 1
          count := pool.count + 1 }) ∧ pool.count ≠ n ∧ pool.shutdown = false) := by
  rw [threadpoolAdd]
  by_cases hnull : task.function = 0
  · exact .inl ⟨by rw [if_pos hnull], .inl hnull⟩
  by_cases hfull : pool.count = n
  · exact .inl ⟨by rw [if_neg hnull, if_pos hfull], .inr (.inl hfull)⟩
  by_cases hshut : pool.shutdown = true
  · exact .inl ⟨by rw [if_neg hnull, if_neg hfull, if_pos hshut], .inr (.inr hshut)⟩
  · exact .inr ⟨by rw [if_neg hnull, if_neg hfull, if_neg hshut], hfull, by simpa using hshut⟩

/-- Every step is one of the transitions. -/
theorem step_cases {s s' : State ι n} {a : Action ι} (h : step s a = some s') : Step s a s' := by
  cases a with
  | add task wake =>
      simp only [step] at h
      split at h
      next => cases h
      next =>
        rcases threadpoolAdd_cases s.pool task with ⟨heq, -⟩ | ⟨heq, hfull, hshut⟩
        · simp only [heq] at h
          split at h
          next hz => cases hz
          next =>
            split at h
            next => cases h; exact .refused
            next => cases h
        · simp only [heq, if_true] at h
          split at h
          next hsig => cases h; exact .added hfull hshut hsig
          next => cases h
  | acquire w =>
      simp only [step] at h
      split at h
      next hw =>
        split at h
        next hempty => cases h; exact .slept hw hempty.1
        next hbusy =>
          split at h
          next hshut => cases h; exact .left hw hshut
          next hshut =>
            cases h
            have hopen : s.pool.shutdown = false := by simpa using hshut
            exact .took hw (fun hz => hbusy ⟨hz, hopen⟩) hopen
      next => cases h
  | spurious w =>
      simp only [step] at h
      split at h
      next hw => cases h; exact .woke hw
      next => cases h
  | call w =>
      simp only [step] at h
      split at h
      next hw => cases h; exact .called hw
      next => cases h
  | finish w =>
      simp only [step] at h
      split at h
      next hw => cases h; exact .finished hw
      next => cases h
  | destroy =>
      simp only [step] at h
      split at h
      next => cases h
      next =>
        split at h
        next hshut => cases h; exact .destroyedAgain hshut
        next hshut => cases h; exact .destroyed (by simpa using hshut)
  | joined =>
      simp only [step] at h
      split at h
      next hall => cases h; exact .joined hall.2
      next => cases h

end IotEdge.ThreadPool
