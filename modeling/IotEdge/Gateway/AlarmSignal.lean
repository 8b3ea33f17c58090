import IotEdge.Lib.Machine
import IotEdge.Gateway.AlarmScheduler

/-!
# The alarm signal and the lock of the thread pool

`SIGALRM` is directed at the process, so the kernel picks any thread that does
not block it, and the thread runs `handle_sigalrm` between two of its own
instructions.  Only `alarm_scheduler_add_task` blocks the signal, on the main
thread.  The handler calls `threadpool_add`, which takes `pool->lock`, and the
lock is not recursive.

Here every thread has two frames.  The handler, when there is one, runs and the
other frame stands still.  A label takes one frame over one point where the lock
matters: taking it, the work under it, giving it back.  A sleeper in
`pthread_cond_wait` may wake at any time, so the signals on the condition
variable are left out.  The state starts in `main` behind `alarm_scheduler_init`;
the other threads are created later.

`no_self_deadlock_iff` is the exact condition: no handler comes to a due task on
a thread that holds the lock.  `selfDeadlocked_forever` says what happens
otherwise.
-/

namespace IotEdge.AlarmSignal

open ThreadPool (Ptr Task Pool threadpoolAdd)

/-- The threads of the gateway.  `ι` are the workers of the pool. -/
inductive Thread (ι : Type) where
  /-- `main`, in the event loop most of the time. -/
  | main
  | cloud
  | worker (w : ι)
deriving DecidableEq

/-- Where a frame is that uses `pool->lock`. -/
inductive LockPc where
  /-- At `pthread_mutex_lock`, or in `pthread_cond_wait` to get the lock back. -/
  | locking
  /-- Behind it. -/
  | locked
  /-- At `pthread_mutex_unlock`. -/
  | unlocking
deriving DecidableEq, Repr

/-- The frame has the lock. -/
def LockPc.holds : LockPc → Bool
  | .locking => false
  | .locked | .unlocking => true

/-- Where a thread is, apart from the handler. -/
inductive NormalPc where
  /-- Not created yet. -/
  | unborn
  /-- Away from the lock: `main` and the upload thread in their loops, a worker in
  a task. -/
  | outside
  /-- In `alarm_scheduler_add_task`, with `SIGALRM` blocked. -/
  | registering (intervalSec : Int) (func arg : Ptr)
  /-- Still there, behind the loop. -/
  | registered
  /-- In `threadpool_add`. -/
  | adding (task : Task) (pc : LockPc)
  /-- In the loop of `threadpool_worker`.  At the unlock it has a task, or leaves. -/
  | working (task : Option Task) (pc : LockPc)
  /-- In `pthread_cond_wait`. -/
  | waiting
  /-- In `threadpool_destroy`. -/
  | destroying (pc : LockPc)
  /-- Joining the workers. -/
  | joining
  /-- After `pthread_exit`. -/
  | exited
deriving DecidableEq, Repr

/-- Where the handler of a thread is. -/
inductive HandlerPc where
  /-- It does not run. -/
  | idle
  /-- In the loop, at slot `i`. -/
  | slot (i : Nat)
  /-- In `threadpool_add`, for slot `i`. -/
  | adding (i : Nat) (task : Task) (pc : LockPc)
deriving DecidableEq, Repr

/-- The frame has the lock. -/
def NormalPc.holds : NormalPc → Bool
  | .adding _ pc | .working _ pc | .destroying pc => pc.holds
  | _ => false

/-- The handler has the lock. -/
def HandlerPc.holds : HandlerPc → Bool
  | .adding _ _ pc => pc.holds
  | _ => false

/-- The handler waits for the lock. -/
def HandlerPc.waits : HandlerPc → Bool
  | .adding _ _ .locking => true
  | _ => false

/-- The thread can be sent `SIGALRM`: it exists and does not block it.  A running
handler blocks it as well. -/
def NormalPc.receives : NormalPc → Bool
  | .unborn | .registering .. | .registered | .exited => false
  | _ => true

/-- The gateway, as far as the lock goes. -/
structure State (ι : Type) (n : Nat) where
  /-- The pool. -/
  pool : Pool n
  /-- `pool->lock` is taken. -/
  locked : Bool
  /-- `g_threadpool` is set. -/
  published : Bool
  tasks : AlarmTable
  /-- Where each thread is. -/
  normal : Thread ι → NormalPc
  /-- Where its handler is. -/
  handler : Thread ι → HandlerPc

/-- The labels. -/
inductive Action (ι : Type) where
  /-- `main` creates a thread. -/
  | spawn (t : Thread ι)
  /-- `main` sets `g_threadpool`. -/
  | publish
  /-- `main` calls `alarm_scheduler_add_task` with valid arguments. -/
  | register (intervalSec : Int) (func arg : Ptr)
  /-- The loop of `alarm_scheduler_add_task`. -/
  | fill
  /-- `alarm_scheduler_add_task` restores the signal mask. -/
  | unmask
  /-- `main` calls `alarm_scheduler_destroy`. -/
  | destroyScheduler
  /-- `main` calls `threadpool_destroy`. -/
  | destroyPool
  /-- A thread calls `threadpool_add`. -/
  | add (t : Thread ι) (task : Task)
  /-- The task of a worker returns. -/
  | finish (w : ι)
  /-- A worker wakes in `pthread_cond_wait`. -/
  | wake (w : ι)
  /-- A thread is sent `SIGALRM`. -/
  | signal (t : Thread ι)
  /-- The handler of a thread does a turn of its loop, or returns. -/
  | tick (t : Thread ι)
  /-- A thread gets the lock. -/
  | acquire (t : Thread ι)
  /-- A thread does what it took the lock for. -/
  | work (t : Thread ι)
  /-- A thread gives the lock back. -/
  | release (t : Thread ι)

/-- The label is a turn of the handler. -/
def Action.isTick {ι : Type} : Action ι → Bool
  | .tick _ => true
  | _ => false

variable {ι : Type} [DecidableEq ι] {n : Nat}

namespace State

/-- A thread moves on. -/
def setNormal (s : State ι n) (t : Thread ι) (pc : NormalPc) : State ι n :=
  { s with normal := Function.update s.normal t pc }

/-- The handler of a thread moves on. -/
def setHandler (s : State ι n) (t : Thread ι) (pc : HandlerPc) : State ι n :=
  { s with handler := Function.update s.handler t pc }

/-- Where a thread is, if its handler does not run. -/
def running (s : State ι n) (t : Thread ι) : Option NormalPc :=
  if s.handler t = .idle then some (s.normal t) else none

/-- The task that a tick of slot `i` hands to `threadpool_add`, if any.  Without a
function `threadpool_add` returns at once. -/
def handed (s : State ι n) (i : Fin maxAlarmTasks) : Option Task :=
  if (s.tasks i).tick.1 ∧ s.published ∧ (s.tasks i).func ≠ 0 then some (s.tasks i).task else none

end State

/-- A turn of the loop of `handle_sigalrm`. -/
def tickSlot (s : State ι n) (t : Thread ι) (i : Nat) : State ι n :=
  if h : i < maxAlarmTasks then
    let pc := match s.handed ⟨i, h⟩ with
      | some task => .adding i task .locking
      | none => .slot (i + 1)
    { s.setHandler t pc with
      tasks := Function.update s.tasks ⟨i, h⟩ (s.tasks ⟨i, h⟩).tick.2 }
  else s.setHandler t .idle

/-- The work of `threadpool_worker` under the lock.  `pthread_cond_wait` gives the
lock back. -/
def workerTurn [NeZero n] (s : State ι n) (t : Thread ι) : State ι n :=
  if s.pool.count = 0 ∧ s.pool.shutdown = false then
    { s.setNormal t .waiting with locked := false }
  else if s.pool.shutdown then s.setNormal t (.working none .unlocking)
  else { s.setNormal t (.working (some s.pool.front) .unlocking) with pool := s.pool.take }

/-- One step. -/
def step [NeZero n] (s : State ι n) : Action ι → Option (State ι n)
  | .spawn t =>
      if s.running .main = some .outside ∧ s.running t = some .unborn then
        match t with
        | .worker _ => some (s.setNormal t (.working none .locking))
        | _ => some (s.setNormal t .outside)
      else none
  | .publish =>
      if s.running .main = some .outside then some { s with published := true } else none
  | .register intervalSec func arg =>
      if s.running .main = some .outside ∧ 0 < intervalSec ∧ func ≠ 0 then
        some (s.setNormal .main (.registering intervalSec func arg))
      else none
  | .fill =>
      match s.running .main with
      | some (.registering intervalSec func arg) =>
          some { s.setNormal .main .registered with
            tasks := (s.tasks.addTask intervalSec func arg).2 }
      | _ => none
  | .unmask =>
      if s.running .main = some .registered then some (s.setNormal .main .outside) else none
  | .destroyScheduler =>
      if s.running .main = some .outside then some { s with tasks := .zeroed } else none
  | .destroyPool =>
      if s.running .main = some .outside ∧ s.published then
        some (s.setNormal .main (.destroying .locking))
      else none
  | .add t task =>
      if s.running t = some .outside ∧ s.published ∧ task.function ≠ 0 then
        some (s.setNormal t (.adding task .locking))
      else none
  | .finish w =>
      if s.running (.worker w) = some .outside then
        some (s.setNormal (.worker w) (.working none .locking))
      else none
  | .wake w =>
      if s.running (.worker w) = some .waiting then
        some (s.setNormal (.worker w) (.working none .locking))
      else none
  | .signal t =>
      match s.running t with
      | some pc => if pc.receives then some (s.setHandler t (.slot 0)) else none
      | none => none
  | .tick t =>
      match s.handler t with
      | .slot i => some (tickSlot s t i)
      | _ => none
  | .acquire t =>
      if s.locked then none
      else match s.handler t, s.normal t with
        | .adding i task .locking, _ =>
            some { s.setHandler t (.adding i task .locked) with locked := true }
        | .idle, .adding task .locking =>
            some { s.setNormal t (.adding task .locked) with locked := true }
        | .idle, .working task .locking =>
            some { s.setNormal t (.working task .locked) with locked := true }
        | .idle, .destroying .locking =>
            some { s.setNormal t (.destroying .locked) with locked := true }
        | _, _ => none
  | .work t =>
      match s.handler t, s.normal t with
      | .adding i task .locked, _ =>
          some { s.setHandler t (.adding i task .unlocking) with
            pool := (threadpoolAdd s.pool task).2 }
      | .idle, .adding task .locked =>
          some { s.setNormal t (.adding task .unlocking) with
            pool := (threadpoolAdd s.pool task).2 }
      | .idle, .working _ .locked => some (workerTurn s t)
      | .idle, .destroying .locked =>
          some { s.setNormal t (.destroying .unlocking) with
            pool := { s.pool with shutdown := true } }
      | _, _ => none
  | .release t =>
      match s.handler t, s.normal t with
      | .adding i _ .unlocking, _ =>
          some { s.setHandler t (.slot (i + 1)) with locked := false }
      | .idle, .adding _ .unlocking => some { s.setNormal t .outside with locked := false }
      | .idle, .working (some _) .unlocking => some { s.setNormal t .outside with locked := false }
      | .idle, .working none .unlocking => some { s.setNormal t .exited with locked := false }
      | .idle, .destroying .unlocking => some { s.setNormal t .joining with locked := false }
      | _, _ => none

/-- In `main`, behind `alarm_scheduler_init`. -/
def start (ι : Type) [DecidableEq ι] (n : Nat) [NeZero n] (memory : Fin n → Task) :
    State ι n where
  pool := { queue := memory, head := 0, tail := 0, count := 0, shutdown := false }
  locked := false
  published := false
  tasks := .zeroed
  normal := fun t => if t = .main then .outside else .unborn
  handler := fun _ => .idle

/-- The gateway with workers `ι` and a pool of `n` slots. -/
def machine (ι : Type) [DecidableEq ι] (n : Nat) [NeZero n] (memory : Fin n → Task) :
    Machine (State ι n) (Action ι) := ⟨start ι n memory, step⟩

/-! ## The transitions -/

/-- What a frame does with the lock: the state of the lock and whether the frame
has it, before and after. -/
inductive LockMove : Bool → Bool → Bool → Bool → Prop where
  /-- Nothing. -/
  | keep {locked holds : Bool} : LockMove locked holds locked holds
  /-- It takes the free lock. -/
  | take : LockMove false false true true
  /-- It gives its lock back. -/
  | give {locked : Bool} : LockMove locked true false false

/-- What a step does to the threads and to the lock. -/
inductive Step (s : State ι n) : Action ι → State ι n → Prop where
  /-- No thread moves. -/
  | quiet {a : Action ι} {s' : State ι n} :
      a.isTick = false →
      s'.normal = s.normal → s'.handler = s.handler → s'.locked = s.locked → Step s a s'
  /-- A thread moves.  Its handler does not run. -/
  | normal {a : Action ι} {t : Thread ι} {pc : NormalPc} {s' : State ι n} :
      a.isTick = false → s.handler t = .idle →
      s'.normal = Function.update s.normal t pc → s'.handler = s.handler →
      LockMove s.locked (s.normal t).holds s'.locked pc.holds → Step s a s'
  /-- A handler moves, and does not come to the lock. -/
  | handler {a : Action ι} {t : Thread ι} {pc : HandlerPc} {s' : State ι n} :
      pc.waits = false → ((s.handler t).waits = true → s.locked = false) →
      s'.normal = s.normal → s'.handler = Function.update s.handler t pc →
      LockMove s.locked (s.handler t).holds s'.locked pc.holds →
      (∀ v i task, a = .tick v → s.handler v = .slot i → ∀ h, s.handed ⟨i, h⟩ ≠ some task) →
      Step s a s'
  /-- A handler comes to the lock. -/
  | handed {t : Thread ι} {i : Nat} {h : i < maxAlarmTasks} {task : Task} {s' : State ι n} :
      s.handler t = .slot i → s.handed ⟨i, h⟩ = some task → s'.normal = s.normal →
      s'.handler = Function.update s.handler t (.adding i task .locking) →
      s'.locked = s.locked → Step s (.tick t) s'

omit [DecidableEq ι] in
theorem running_eq_some {s : State ι n} {t : Thread ι} {pc : NormalPc} :
    s.running t = some pc ↔ s.handler t = .idle ∧ s.normal t = pc := by
  simp [State.running]

/-- A thread that moves without touching the lock. -/
theorem Step.setNormal {s : State ι n} {a : Action ι} {t : Thread ι} {pc pc' : NormalPc}
    (ha : a.isTick = false) (h : s.running t = some pc) (hpc : pc'.holds = pc.holds) :
    Step s a (s.setNormal t pc') := by
  obtain ⟨hidle, hnormal⟩ := running_eq_some.mp h
  refine .normal ha hidle rfl rfl ?_
  rw [hnormal, hpc]
  exact .keep

/-- A handler that is behind `pthread_mutex_lock`, or comes there. -/
theorem Step.setHandler {s s' : State ι n} {a : Action ι} {t : Thread ι} {i : Nat} {task : Task}
    {pc : LockPc} {pc' : HandlerPc} (ha : a.isTick = false) (h : s.handler t = .adding i task pc)
    (hnormal : s'.normal = s.normal) (hhandler : s'.handler = Function.update s.handler t pc')
    (hwaits : pc'.waits = false) (hpc : pc = .locking → s.locked = false)
    (hlock : LockMove s.locked pc.holds s'.locked pc'.holds) : Step s a s' := by
  refine .handler hwaits ?_ hnormal hhandler ?_ ?_
  · rw [h]
    cases pc with
    | locking => exact fun _ => hpc rfl
    | locked | unlocking => exact fun hw => by cases hw
  · rw [h]
    exact hlock
  · intro v j task' hv
    subst hv
    cases ha

/-- A turn of the loop of the handler. -/
theorem tickSlot_cases {s : State ι n} {t : Thread ι} {i : Nat} (h : s.handler t = .slot i) :
    Step s (.tick t) (tickSlot s t i) := by
  rw [tickSlot]
  split
  next hi =>
    cases hhanded : s.handed ⟨i, hi⟩ with
    | some task => exact .handed h hhanded rfl rfl rfl
    | none =>
        refine .handler (t := t) (show HandlerPc.waits (.slot (i + 1)) = false from rfl)
          ?_ rfl rfl ?_ ?_
        · rw [h]
          exact fun hw => by cases hw
        · rw [h]
          exact .keep
        · intro v j task hv hj _ hsome
          cases hv
          rw [h, HandlerPc.slot.injEq] at hj
          subst hj
          rw [hhanded] at hsome
          cases hsome
  next hi =>
    refine .handler (t := t) (show HandlerPc.waits .idle = false from rfl) ?_ rfl rfl ?_ ?_
    · rw [h]
      exact fun hw => by cases hw
    · rw [h]
      exact .keep
    · intro v j task hv hj hlt _
      cases hv
      rw [h, HandlerPc.slot.injEq] at hj
      exact hi (hj ▸ hlt)

/-- Every step is one of the transitions. -/
theorem step_cases [NeZero n] {s s' : State ι n} {a : Action ι} (h : step s a = some s') :
    Step s a s' := by
  cases a with
  | spawn t =>
      simp only [step] at h
      split at h
      next hspawn =>
        split at h
        next => cases h; exact .setNormal rfl hspawn.2 rfl
        next => cases h; exact .setNormal rfl hspawn.2 rfl
      next => cases h
  | publish =>
      simp only [step] at h
      split at h
      next => cases h; exact .quiet rfl rfl rfl rfl
      next => cases h
  | register intervalSec func arg =>
      simp only [step] at h
      split at h
      next hmain => cases h; exact .setNormal rfl hmain.1 rfl
      next => cases h
  | fill =>
      simp only [step] at h
      split at h
      next hmain =>
        cases h
        obtain ⟨hidle, hpc⟩ := running_eq_some.mp hmain
        exact .normal rfl hidle rfl rfl (by rw [hpc]; exact .keep)
      next => cases h
  | unmask =>
      simp only [step] at h
      split at h
      next hmain => cases h; exact .setNormal rfl hmain rfl
      next => cases h
  | destroyScheduler =>
      simp only [step] at h
      split at h
      next => cases h; exact .quiet rfl rfl rfl rfl
      next => cases h
  | destroyPool =>
      simp only [step] at h
      split at h
      next hmain => cases h; exact .setNormal rfl hmain.1 rfl
      next => cases h
  | add t task =>
      simp only [step] at h
      split at h
      next ht => cases h; exact .setNormal rfl ht.1 rfl
      next => cases h
  | finish w =>
      simp only [step] at h
      split at h
      next hw => cases h; exact .setNormal rfl hw rfl
      next => cases h
  | wake w =>
      simp only [step] at h
      split at h
      next hw => cases h; exact .setNormal rfl hw rfl
      next => cases h
  | signal t =>
      simp only [step] at h
      split at h
      next pc hrun =>
        obtain ⟨hidle, -⟩ := running_eq_some.mp hrun
        split at h
        next =>
          cases h
          refine .handler (t := t) (show HandlerPc.waits (.slot 0) = false from rfl) ?_ rfl rfl ?_ ?_
          · rw [hidle]
            exact fun hw => by cases hw
          · rw [hidle]
            exact .keep
          · exact fun _ _ _ ha => by cases ha
        next => cases h
      next => cases h
  | tick t =>
      simp only [step] at h
      split at h
      next hslot => cases h; exact tickSlot_cases hslot
      next => cases h
  | acquire t =>
      simp only [step] at h
      split at h
      next => cases h
      next hlocked =>
        have hfree : s.locked = false := by simpa using hlocked
        split at h
        next hh => cases h; exact .setHandler rfl hh rfl rfl rfl (fun _ => hfree) (hfree ▸ .take)
        next hh hn => cases h; exact .normal rfl hh rfl rfl (by rw [hn, hfree]; exact .take)
        next hh hn => cases h; exact .normal rfl hh rfl rfl (by rw [hn, hfree]; exact .take)
        next hh hn => cases h; exact .normal rfl hh rfl rfl (by rw [hn, hfree]; exact .take)
        next => cases h
  | work t =>
      simp only [step] at h
      split at h
      next hh => cases h; exact .setHandler rfl hh rfl rfl rfl (fun hpc => by cases hpc) .keep
      next hh hn => cases h; exact .normal rfl hh rfl rfl (by rw [hn]; exact .keep)
      next hh hn =>
        cases h
        rw [workerTurn]
        split
        next => exact .normal rfl hh rfl rfl (by rw [hn]; exact .give)
        next =>
          split
          next => exact .normal rfl hh rfl rfl (by rw [hn]; exact .keep)
          next => exact .normal rfl hh rfl rfl (by rw [hn]; exact .keep)
      next hh hn => cases h; exact .normal rfl hh rfl rfl (by rw [hn]; exact .keep)
      next => cases h
  | release t =>
      simp only [step] at h
      split at h
      next hh => cases h; exact .setHandler rfl hh rfl rfl rfl (fun hpc => by cases hpc) .give
      next hh hn => cases h; exact .normal rfl hh rfl rfl (by rw [hn]; exact .give)
      next hh hn => cases h; exact .normal rfl hh rfl rfl (by rw [hn]; exact .give)
      next hh hn => cases h; exact .normal rfl hh rfl rfl (by rw [hn]; exact .give)
      next hh hn => cases h; exact .normal rfl hh rfl rfl (by rw [hn]; exact .give)
      next => cases h

/-! ## Self-deadlock -/

/-- The handler of `t` waits for the lock while `t` itself has it. -/
def SelfDeadlocked (s : State ι n) (t : Thread ι) : Prop :=
  (s.handler t).waits = true ∧ (s.normal t).holds = true

/-- When the handler comes to a due task, the thread it runs on does not have the
lock. -/
def HandsFree (s : State ι n) : Action ι → Prop
  | .tick t => ∀ i h task, s.handler t = .slot i → s.handed ⟨i, h⟩ = some task →
      (s.normal t).holds = false
  | _ => True

omit [DecidableEq ι] in
theorem handsFree_of_not_isTick {a : Action ι} (h : a.isTick = false) (s : State ι n) :
    HandsFree s a := by
  cases a with
  | tick t => cases h
  | _ => trivial

/-- A step makes no thread wait for itself just when it meets `HandsFree`. -/
theorem Step.handsFree_iff {s s' : State ι n} {a : Action ι} (h : ∀ t, ¬ SelfDeadlocked s t)
    (hs : Step s a s') : (∀ t, ¬ SelfDeadlocked s' t) ↔ HandsFree s a := by
  cases hs with
  | quiet ha hnormal hhandler _ =>
      refine iff_of_true (fun t hdead => h t ?_) (handsFree_of_not_isTick ha s)
      rw [SelfDeadlocked, hnormal, hhandler] at hdead
      exact hdead
  | @normal _ u pc _ ha hidle hnormal hhandler _ =>
      refine iff_of_true (fun t hdead => ?_) (handsFree_of_not_isTick ha s)
      rw [SelfDeadlocked, hnormal, hhandler] at hdead
      by_cases ht : t = u
      · subst ht
        rw [hidle] at hdead
        cases hdead.1
      · rw [Function.update_of_ne ht] at hdead
        exact h t hdead
  | @handler _ u pc _ hpc _ hnormal hhandler _ hnone =>
      refine iff_of_true (fun t hdead => ?_) ?_
      · rw [SelfDeadlocked, hnormal, hhandler] at hdead
        by_cases ht : t = u
        · subst ht
          rw [Function.update_self, hpc] at hdead
          cases hdead.1
        · rw [Function.update_of_ne ht] at hdead
          exact h t hdead
      · cases a with
        | tick v => exact fun i hi task hslot hhanded => absurd hhanded (hnone v i task rfl hslot hi)
        | _ => trivial
  | @handed u i hi task _ hslot hhanded hnormal hhandler _ =>
      constructor
      · intro h' j hj task' hj' _
        have hfree := h' u
        rw [SelfDeadlocked, hnormal, hhandler, Function.update_self] at hfree
        exact Bool.eq_false_iff.mpr fun hholds => hfree ⟨rfl, hholds⟩
      · intro hfree t hdead
        rw [SelfDeadlocked, hnormal, hhandler] at hdead
        by_cases ht : t = u
        · subst ht
          rw [hfree i hi task hslot hhanded] at hdead
          cases hdead.2
        · rw [Function.update_of_ne ht] at hdead
          exact h t hdead

/-- Along any run, no thread's handler waits for a lock that the thread itself has
just when no handler comes to a due task on a thread with the lock. -/
theorem no_self_deadlock_iff [NeZero n] {memory : Fin n → Task} {as : List (Action ι)}
    {s : State ι n} (hrun : (machine ι n memory).run as = some s) :
    (machine ι n memory).Always as (fun s => ∀ t, ¬ SelfDeadlocked s t) ↔
      (machine ι n memory).EachStep as HandsFree :=
  Machine.always_iff_eachStep (fun _ hdead => by cases hdead.1)
    (fun _ h hs => (step_cases hs).handsFree_iff h) hrun

/-- `main` registers a task for every second and starts a worker.  The signal
comes when the worker has the lock. -/
def signalUnderLock : List (Action (Fin 1)) :=
  [.register 1 7 0, .fill, .unmask, .spawn (.worker 0), .publish, .acquire (.worker 0),
    .signal (.worker 0), .tick (.worker 0)]

/-- The handler then waits for the worker it runs on. -/
theorem worker_waits_for_itself :
    ¬ ∀ s, (machine (Fin 1) 1 fun _ => ⟨0, 0⟩).Reachable s → ∀ t, ¬ SelfDeadlocked s t := by
  intro h
  have hrun : ((machine (Fin 1) 1 fun _ => ⟨0, 0⟩).run signalUnderLock).map (fun s =>
      ((s.handler (.worker 0)).waits, (s.normal (.worker 0)).holds)) = some (true, true) := by
    decide
  obtain ⟨s, hs, heq⟩ := Option.map_eq_some_iff.mp hrun
  obtain ⟨hwaits, hholds⟩ := Prod.mk.injEq .. ▸ heq
  exact h s ⟨_, hs⟩ (.worker 0) ⟨hwaits, hholds⟩

/-- Up to the signal nobody waits for itself. -/
theorem no_self_deadlock_iff_signalled : (machine (Fin 1) 1 fun _ => ⟨0, 0⟩).Always
    (signalUnderLock.take 7) (fun s => ∀ t, ¬ SelfDeadlocked s t) := by
  obtain ⟨s, hs⟩ := Option.isSome_iff_exists.mp
    (show ((machine (Fin 1) 1 fun _ => ⟨0, 0⟩).run (signalUnderLock.take 7)).isSome by decide)
  refine (no_self_deadlock_iff hs).mpr fun pre a hpre t _ => ?_
  have hall : ∀ a ∈ signalUnderLock.take 7, a.isTick = false := by
    simp [signalUnderLock, Action.isTick]
  exact handsFree_of_not_isTick (hall a (hpre.subset (by simp))) t

/-! ## A self-deadlock is final -/

/-- A frame has the lock: `(t, true)` is the handler of `t`, `(t, false)` is `t`. -/
def State.holds (s : State ι n) : Thread ι × Bool → Bool
  | (t, true) => (s.handler t).holds
  | (t, false) => (s.normal t).holds

/-- The lock is taken when a frame has it, and at most one has it. -/
structure LockExclusive {φ : Type} (locked : Bool) (holds : φ → Bool) : Prop where
  /-- A frame with the lock has taken it. -/
  locked : ∀ f, holds f = true → locked = true
  /-- Two frames do not have it. -/
  unique : ∀ f g, holds f = true → holds g = true → f = g

theorem LockExclusive.move {φ : Type} [DecidableEq φ] {locked locked' b : Bool} {holds : φ → Bool}
    {f : φ} (h : LockExclusive locked holds) (hm : LockMove locked (holds f) locked' b) :
    LockExclusive locked' (Function.update holds f b) := by
  generalize hf : holds f = a at hm
  cases hm with
  | keep =>
      rw [← hf, Function.update_eq_self]
      exact h
  | take =>
      have hnone : ∀ g, Function.update holds f true g = true → g = f := by
        intro g hg
        by_contra hne
        rw [Function.update_of_ne hne] at hg
        cases h.locked g hg
      exact ⟨fun _ _ => rfl, fun g k hg hk => (hnone g hg).trans (hnone k hk).symm⟩
  | give =>
      have hnone : ∀ g, Function.update holds f false g ≠ true := by
        intro g hg
        by_cases hgf : g = f
        · subst hgf
          rw [Function.update_self] at hg
          cases hg
        · rw [Function.update_of_ne hgf] at hg
          exact hgf (h.unique g f hg hf)
      exact ⟨fun g hg => absurd hg (hnone g), fun g _ hg => absurd hg (hnone g)⟩

theorem State.holds_of_normal {s s' : State ι n} {u : Thread ι} {pc : NormalPc}
    (hnormal : s'.normal = Function.update s.normal u pc) (hhandler : s'.handler = s.handler) :
    s'.holds = Function.update s.holds (u, false) pc.holds := by
  funext ⟨t, b⟩
  cases b with
  | true => simp [holds, hhandler]
  | false =>
      by_cases ht : t = u
      · subst ht
        simp [holds, hnormal]
      · simp [holds, hnormal, ht]

theorem State.holds_of_handler {s s' : State ι n} {u : Thread ι} {pc : HandlerPc}
    (hnormal : s'.normal = s.normal) (hhandler : s'.handler = Function.update s.handler u pc) :
    s'.holds = Function.update s.holds (u, true) pc.holds := by
  funext ⟨t, b⟩
  cases b with
  | false => simp [holds, hnormal]
  | true =>
      by_cases ht : t = u
      · subst ht
        simp [holds, hhandler]
      · simp [holds, hhandler, ht]

/-- A step keeps the lock exclusive. -/
theorem Step.lockExclusive {s s' : State ι n} {a : Action ι}
    (h : LockExclusive s.locked s.holds) (hs : Step s a s') :
    LockExclusive s'.locked s'.holds := by
  cases hs with
  | quiet _ hnormal hhandler hlocked =>
      have heq : s'.holds = s.holds := by
        funext ⟨t, b⟩
        cases b <;> simp [State.holds, hnormal, hhandler]
      rw [heq, hlocked]
      exact h
  | normal _ _ hnormal hhandler hmove =>
      rw [State.holds_of_normal hnormal hhandler]
      exact h.move hmove
  | handler _ _ hnormal hhandler hmove _ =>
      rw [State.holds_of_handler hnormal hhandler]
      exact h.move hmove
  | handed hslot _ hnormal hhandler hlocked =>
      rw [State.holds_of_handler hnormal hhandler, hlocked]
      refine h.move ?_
      rw [State.holds, hslot]
      exact .keep

/-- A thread that waits for itself goes on doing so. -/
theorem SelfDeadlocked.step {s s' : State ι n} {a : Action ι} {t : Thread ι}
    (hex : LockExclusive s.locked s.holds) (h : SelfDeadlocked s t) (hs : Step s a s') :
    SelfDeadlocked s' t := by
  have hlocked : s.locked = true := hex.locked (t, false) h.2
  cases hs with
  | quiet _ hnormal hhandler _ =>
      rw [SelfDeadlocked, hnormal, hhandler]
      exact h
  | @normal _ u pc _ _ hidle hnormal hhandler _ =>
      have hne : t ≠ u := by
        rintro rfl
        rw [SelfDeadlocked, hidle] at h
        cases h.1
      rw [SelfDeadlocked, hnormal, hhandler, Function.update_of_ne hne]
      exact h
  | @handler _ u pc _ _ hwaits hnormal hhandler _ _ =>
      have hne : t ≠ u := by
        rintro rfl
        rw [hwaits h.1] at hlocked
        cases hlocked
      rw [SelfDeadlocked, hnormal, hhandler, Function.update_of_ne hne]
      exact h
  | @handed u i _ task _ hslot _ hnormal hhandler _ =>
      have hne : t ≠ u := by
        rintro rfl
        rw [SelfDeadlocked, hslot] at h
        cases h.1
      rw [SelfDeadlocked, hnormal, hhandler, Function.update_of_ne hne]
      exact h

/-- Once a thread waits for itself it does so forever, and no other frame gets the
lock again. -/
theorem selfDeadlocked_forever [NeZero n] {memory : Fin n → Task} {s s' : State ι n}
    {t : Thread ι} (hr : (machine ι n memory).Reachable s) (h : SelfDeadlocked s t)
    {as : List (Action ι)} (hrun : (machine ι n memory).runFrom s as = some s') :
    SelfDeadlocked s' t ∧ ∀ f, s'.holds f = true → f = (t, false) := by
  have hstart : LockExclusive (start ι n memory).locked (start ι n memory).holds := by
    have hnone : ∀ f, (start ι n memory).holds f ≠ true := by
      rintro ⟨u, b⟩ hf
      cases b with
      | true => cases hf
      | false =>
          simp only [State.holds, start] at hf
          split at hf <;> cases hf
    exact ⟨fun f hf => absurd hf (hnone f), fun f _ hf => absurd hf (hnone f)⟩
  have hex : LockExclusive s.locked s.holds :=
    Machine.Reachable.invariant (I := fun s => LockExclusive s.locked s.holds) hstart
      (fun hex hs => Step.lockExclusive hex (step_cases hs)) hr
  obtain ⟨hex', hdead⟩ := Machine.runFrom_induction
    (I := fun s => LockExclusive s.locked s.holds ∧ SelfDeadlocked s t)
    (fun ⟨hex, hdead⟩ hs => ⟨Step.lockExclusive hex (step_cases hs),
      hdead.step hex (step_cases hs)⟩) ⟨hex, h⟩ hrun
  exact ⟨hdead, fun f hf => hex'.unique f (t, false) hf hdead.2⟩

end IotEdge.AlarmSignal
