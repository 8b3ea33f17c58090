import IotEdge.Gateway.AlarmScheduler
import IotEdge.Gateway.ThreadPoolWakeup

/-!
# Closing the task pipe

Every five seconds the alarm scheduler hands `heartbeat_task` to the thread pool, and the
task writes a command to the task pipe.  At the end `main` closes the pipe first and ends
the workers of the pool later, and `fifo_write_fd` keeps its value.

A worker that has a task when the pipe is closed, or takes one afterwards, writes to a
descriptor that is closed, or that is another file by then.  `no_stale_write_iff` says
that there is no other way, and that each such worker does write.
-/

namespace IotEdge.PoolTeardown

open ThreadPool (Ptr Task WorkerPc waiters wakeAll)

/-- The address of `heartbeat_task`. -/
def heartbeatTask : Ptr := 1

/-- Where a worker is in `heartbeat_task`. -/
inductive HeartbeatPc where
  | log
  /-- At the test of `process_pool_submit_task`. -/
  | test
  /-- Behind it, before `write`. -/
  | write
  /-- At the end. -/
  | done
deriving DecidableEq, Repr

/-- Where `main` is. -/
inductive MainPc where
  /-- In the event loop, or joining the upload thread. -/
  | eventLoop
  /-- At `setitimer` in `alarm_scheduler_destroy`. -/
  | setitimer
  /-- At `memset` there. -/
  | memset
  /-- At `close` in `process_pool_destroy`. -/
  | close
  /-- In the rest of it. -/
  | kill
  /-- In `destroy_system_v_ipc`. -/
  | systemV
  /-- In the critical section of `threadpool_destroy`. -/
  | destroy
  /-- Joining the workers. -/
  | join
  /-- Behind it. -/
  | done
deriving DecidableEq, Repr

/-- The pool, the alarm, and `main`. -/
structure State (ι : Type) (n : Nat) where
  /-- The thread pool. -/
  pool : ThreadPool.State ι n
  /-- Where a worker is in its task, if it runs one. -/
  heartbeats : ι → HeartbeatPc
  /-- The timer is set. -/
  timer : Bool
  /-- The slot of `tasks` in use. -/
  task : AlarmTask
  /-- The signal handlers that are about to call `threadpool_add`. -/
  due : Nat
  /-- Where `main` is. -/
  main : MainPc
  /-- The descriptor in `fifo_write_fd` was closed. -/
  closed : Bool
  /-- The workers that wrote to it afterwards. -/
  staleWrites : List ι

/-- The labels. -/
inductive Action (ι : Type) where
  /-- `SIGALRM`: the handler counts down. -/
  | alarm
  /-- The handler's call of `threadpool_add`, and the sleepers it wakes. -/
  | add (wake : Finset ι)
  /-- A worker's critical section. -/
  | acquire (w : ι)
  /-- A sleeper wakes for no reason. -/
  | spurious (w : ι)
  /-- A worker calls its task. -/
  | call (w : ι)
  /-- The next statement of a worker's task. -/
  | heartbeat (w : ι)
  /-- The next statement of `main`. -/
  | main

variable {ι : Type} [DecidableEq ι] {n : Nat}

namespace State

/-- The worker goes on in its task. -/
def enter (s : State ι n) (w : ι) (pc : HeartbeatPc) : State ι n :=
  { s with heartbeats := Function.update s.heartbeats w pc }

/-- `write`. -/
def write (s : State ι n) (w : ι) : State ι n :=
  { s with staleWrites := if s.closed then w :: s.staleWrites else s.staleWrites }

end State

variable [Fintype ι] [NeZero n] (fifoWriteFd : Int)

/-- The next statement of a task. -/
def stepHeartbeat (s : State ι n) (w : ι) : Option (State ι n) :=
  match s.heartbeats w with
  | .log => some (s.enter w .test)
  | .test => some (s.enter w (if fifoWriteFd < 0 then .done else .write))
  | .write => some ((s.write w).enter w .done)
  | .done => (ThreadPool.step s.pool (.finish w)).map fun pool => { s with pool := pool }

/-- The next statement of `main`. -/
def stepMain (s : State ι n) : Option (State ι n) :=
  match s.main with
  | .eventLoop => some { s with main := .setitimer }
  | .setitimer => some { s with timer := false, main := .memset }
  | .memset => some { s with task := .zeroed, main := .close }
  | .close => some { s with closed := decide (0 ≤ fifoWriteFd), main := .kill }
  | .kill => some { s with main := .systemV }
  | .systemV => some { s with main := .destroy }
  | .destroy =>
      (ThreadPool.step s.pool .destroy).map fun pool => { s with pool := pool, main := .join }
  | .join =>
      (ThreadPool.step s.pool .joined).map fun pool => { s with pool := pool, main := .done }
  | .done => none

/-- One step. -/
def step (s : State ι n) : Action ι → Option (State ι n)
  | .alarm =>
      if s.timer then
        some { s with task := s.task.tick.2, due := s.due + s.task.tick.1.toNat }
      else none
  | .add wake =>
      if s.due = 0 then none
      else (ThreadPool.step s.pool (.add s.task.task wake)).map fun pool =>
        { s with pool := pool, due := s.due - 1 }
  | .acquire w => (ThreadPool.step s.pool (.acquire w)).map fun pool => { s with pool := pool }
  | .spurious w => (ThreadPool.step s.pool (.spurious w)).map fun pool => { s with pool := pool }
  | .call w =>
      (ThreadPool.step s.pool (.call w)).map fun pool => { s with pool := pool }.enter w .log
  | .heartbeat w =>
      match s.pool.workers w with
      | .running _ _ => stepHeartbeat fifoWriteFd s w
      | _ => none
  | .main => stepMain fifoWriteFd s

/-- The state at the start of the event loop. -/
def start (ι : Type) (n : Nat) [NeZero n] (memory : Fin n → Task) : State ι n where
  pool := ThreadPool.start ι n memory
  heartbeats := fun _ => .done
  timer := true
  task := ⟨true, 5, 5, heartbeatTask, 0⟩
  due := 0
  main := .eventLoop
  closed := false
  staleWrites := []

/-- The gateway from the event loop on.  `fifoWriteFd` is what `process_pool_init` left in
`fifo_write_fd`. -/
def machine (ι : Type) [Fintype ι] [DecidableEq ι] (n : Nat) [NeZero n]
    (memory : Fin n → Task) (fifoWriteFd : Int) : Machine (State ι n) (Action ι) :=
  ⟨start ι n memory, step fifoWriteFd⟩

/-! ## Who is going to write -/

/-- A worker has a task whose `write` is still to come. -/
def busy : WorkerPc → HeartbeatPc → Bool
  | .holding _ _, _ => true
  | .running _ _, pc => pc != .done
  | _, _ => false

/-- The worker is going to write. -/
def State.engaged (s : State ι n) (w : ι) : Bool := busy (s.pool.workers w) (s.heartbeats w)

/-- When the pipe is closed no worker is going to write, and after that no worker takes a
task. -/
def InTime (s : State ι n) (a : Action ι) : Prop :=
  (a = .main → s.main = .close → 0 ≤ fifoWriteFd → ∀ w, s.engaged w = false) ∧
    ∀ w, a = .acquire w → s.closed = true → s.pool.pool.shutdown = false → s.pool.pool.count = 0

/-- What a step does to the pipe and to the workers that are going to write. -/
inductive Effect (s : State ι n) : Action ι → State ι n → Prop where
  | quiet {a : Action ι} {s' : State ι n} :
      InTime fifoWriteFd s a → s'.closed = s.closed → s'.staleWrites = s.staleWrites →
      s'.engaged = s.engaged → Effect s a s'
  | took {w : ι} {s' : State ι n} :
      s.pool.pool.count ≠ 0 → s.pool.pool.shutdown = false →
      s'.closed = s.closed → s'.staleWrites = s.staleWrites →
      s'.engaged = Function.update s.engaged w true → Effect s (.acquire w) s'
  | gaveUp {w : ι} {s' : State ι n} :
      fifoWriteFd < 0 → s'.closed = s.closed → s'.staleWrites = s.staleWrites →
      s'.engaged = Function.update s.engaged w false → Effect s (.heartbeat w) s'
  | wrote {w : ι} {s' : State ι n} :
      s.engaged w = true → s'.closed = s.closed →
      s'.staleWrites = (if s.closed then w :: s.staleWrites else s.staleWrites) →
      s'.engaged = Function.update s.engaged w false → Effect s (.heartbeat w) s'
  | closed {s' : State ι n} :
      s.main = .close → s'.closed = decide (0 ≤ fifoWriteFd) → s'.staleWrites = s.staleWrites →
      s'.engaged = s.engaged → Effect s .main s'

variable {fifoWriteFd}

section Steps

omit [Fintype ι] [DecidableEq ι] [NeZero n]

theorem inTime_of_ne {s : State ι n} {a : Action ι} (hmain : a ≠ .main)
    (hacquire : ∀ w, a ≠ .acquire w) : InTime fifoWriteFd s a :=
  ⟨fun h => absurd h hmain, fun w h => absurd h (hacquire w)⟩

theorem inTime_main {s : State ι n} (h : s.main ≠ .close) : InTime fifoWriteFd s .main :=
  ⟨fun _ hclose => absurd hclose h, fun _ hacquire => by cases hacquire⟩

theorem busy_of_contends {pc : WorkerPc} (h : pc.contends = true) (hb : HeartbeatPc) :
    busy pc hb = false := by
  cases pc with
  | atLock | woken => rfl
  | _ => cases h

variable [DecidableEq ι]

/-- A worker moves. -/
theorem engaged_pool (s : State ι n) {pool : ThreadPool.State ι n} {w : ι} {pc : WorkerPc}
    (h : pool.workers = Function.update s.pool.workers w pc) :
    State.engaged { s with pool := pool } =
      Function.update s.engaged w (busy pc (s.heartbeats w)) := by
  funext v
  rw [State.engaged, h]
  rcases eq_or_ne v w with rfl | hne
  · rw [Function.update_self, Function.update_self]
  · rw [Function.update_of_ne hne, Function.update_of_ne hne]
    rfl

/-- A worker moves, and is no nearer to a write. -/
theorem engaged_pool_eq (s : State ι n) {pool : ThreadPool.State ι n} {w : ι} {pc : WorkerPc}
    (h : pool.workers = Function.update s.pool.workers w pc)
    (hb : busy pc (s.heartbeats w) = s.engaged w) :
    State.engaged { s with pool := pool } = s.engaged := by
  rw [engaged_pool s h, hb, Function.update_eq_self]

/-- A worker goes on in its task. -/
theorem engaged_enter {s : State ι n} {w : ι} {k : Nat} {t : Task}
    (hw : s.pool.workers w = .running k t) (pc : HeartbeatPc) :
    (s.enter w pc).engaged = Function.update s.engaged w (pc != .done) := by
  funext v
  change busy (s.pool.workers v) (Function.update s.heartbeats w pc v) = _
  rcases eq_or_ne v w with rfl | hne
  · rw [Function.update_self, Function.update_self, hw]
    rfl
  · rw [Function.update_of_ne hne, Function.update_of_ne hne]
    rfl

end Steps

omit [NeZero n] in
/-- Waking sleepers makes no worker write. -/
theorem engaged_wakeAll (s : State ι n) {pool : ThreadPool.State ι n} {wake : Finset ι}
    (h : pool.workers = wakeAll s.pool.workers wake) (hsub : wake ⊆ waiters s.pool.workers) :
    State.engaged { s with pool := pool } = s.engaged := by
  funext w
  rw [State.engaged, State.engaged, h, wakeAll]
  split
  next hw => rw [ThreadPool.mem_waiters.mp (hsub hw)]; rfl
  next => rfl

/-- A critical section of a worker. -/
theorem effect_acquire {s s' : State ι n} {w : ι}
    (hs : step fifoWriteFd s (.acquire w) = some s') : Effect fifoWriteFd s (.acquire w) s' := by
  obtain ⟨pool, hpool, rfl⟩ := Option.map_eq_some_iff.mp hs
  have hidle : (s.pool.workers w).contends = true → s.engaged w = false :=
    fun hcontends => busy_of_contends hcontends _
  cases ThreadPool.step_cases hpool with
  | slept hcontends hcount =>
      refine .quiet ⟨fun h => (by cases h), fun _ _ _ _ => hcount⟩ rfl rfl ?_
      exact engaged_pool_eq s rfl (hidle hcontends).symm
  | left hcontends hshut =>
      refine .quiet ⟨fun h => (by cases h), fun _ _ _ hopen => ?_⟩ rfl rfl ?_
      · rw [hshut] at hopen
        cases hopen
      · exact engaged_pool_eq s rfl (hidle hcontends).symm
  | took hcontends hcount hshut =>
      exact .took hcount hshut rfl rfl ((engaged_pool s rfl).trans rfl)

/-- A statement of a task. -/
theorem effect_heartbeat {s s' : State ι n} {w : ι}
    (hs : step fifoWriteFd s (.heartbeat w) = some s') :
    Effect fifoWriteFd s (.heartbeat w) s' := by
  have hintime : InTime fifoWriteFd s (.heartbeat w) := inTime_of_ne (by simp) (by simp)
  simp only [step] at hs
  split at hs
  next k t hw =>
    have hengaged : s.engaged w = (s.heartbeats w != .done) := by
      rw [State.engaged, hw]
      rfl
    have hstays : ∀ pc : HeartbeatPc, s.heartbeats w ≠ .done → pc ≠ .done →
        (s.enter w pc).engaged = s.engaged := by
      intro pc hbefore hafter
      rw [engaged_enter hw, (bne_iff_ne).mpr hafter, ← (bne_iff_ne).mpr hbefore, ← hengaged,
        Function.update_eq_self]
    simp only [stepHeartbeat] at hs
    split at hs
    next hpc =>
      cases hs
      exact .quiet hintime rfl rfl (hstays _ (by rw [hpc]; simp) (by simp))
    next hpc =>
      cases hs
      split
      next hfd => exact .gaveUp hfd rfl rfl (engaged_enter hw .done)
      next => exact .quiet hintime rfl rfl (hstays _ (by rw [hpc]; simp) (by simp))
    next hpc =>
      cases hs
      rw [hpc] at hengaged
      exact .wrote hengaged rfl rfl (engaged_enter hw .done)
    next hpc =>
      obtain ⟨pool, hpool, rfl⟩ := Option.map_eq_some_iff.mp hs
      rw [hpc] at hengaged
      cases ThreadPool.step_cases hpool with
      | finished _ => exact .quiet hintime rfl rfl (engaged_pool_eq s rfl hengaged.symm)
  next => cases hs

/-- A statement of `main`. -/
theorem effect_main {s s' : State ι n} (hs : step fifoWriteFd s .main = some s') :
    Effect fifoWriteFd s .main s' := by
  simp only [step, stepMain] at hs
  cases hpc : s.main with
  | close =>
      rw [hpc] at hs
      cases hs
      exact .closed hpc rfl rfl rfl
  | destroy =>
      rw [hpc] at hs
      obtain ⟨pool, hpool, rfl⟩ := Option.map_eq_some_iff.mp hs
      refine .quiet (inTime_main (by simp [hpc])) rfl rfl ?_
      cases ThreadPool.step_cases hpool with
      | destroyed _ => exact engaged_wakeAll s rfl (Finset.Subset.refl _)
      | destroyedAgain _ => rfl
  | join =>
      rw [hpc] at hs
      obtain ⟨pool, hpool, rfl⟩ := Option.map_eq_some_iff.mp hs
      refine .quiet (inTime_main (by simp [hpc])) rfl rfl ?_
      cases ThreadPool.step_cases hpool with
      | joined _ => rfl
  | done =>
      rw [hpc] at hs
      cases hs
  | eventLoop | setitimer | memset | kill | systemV =>
      rw [hpc] at hs
      cases hs
      exact .quiet (inTime_main (by simp [hpc])) rfl rfl rfl

theorem step_effect {s s' : State ι n} {a : Action ι} (hs : step fifoWriteFd s a = some s') :
    Effect fifoWriteFd s a s' := by
  cases a with
  | alarm =>
      simp only [step] at hs
      split at hs
      next =>
        cases hs
        exact .quiet (inTime_of_ne (by simp) (by simp)) rfl rfl rfl
      next => cases hs
  | add wake =>
      simp only [step] at hs
      split at hs
      next => cases hs
      next =>
        obtain ⟨pool, hpool, rfl⟩ := Option.map_eq_some_iff.mp hs
        refine .quiet (inTime_of_ne (by simp) (by simp)) rfl rfl ?_
        cases ThreadPool.step_cases hpool with
        | added _ _ hsignal => exact engaged_wakeAll s rfl hsignal.1
        | refused => rfl
  | acquire w => exact effect_acquire hs
  | spurious w =>
      obtain ⟨pool, hpool, rfl⟩ := Option.map_eq_some_iff.mp hs
      refine .quiet (inTime_of_ne (by simp) (by simp)) rfl rfl ?_
      cases ThreadPool.step_cases hpool with
      | woke hw =>
          refine engaged_pool_eq s rfl ?_
          rw [State.engaged, hw]
          rfl
  | call w =>
      obtain ⟨pool, hpool, rfl⟩ := Option.map_eq_some_iff.mp hs
      refine .quiet (inTime_of_ne (by simp) (by simp)) rfl rfl ?_
      cases ThreadPool.step_cases hpool with
      | called hw =>
          have hengaged : s.engaged w = true := by
            rw [State.engaged, hw]
            rfl
          refine (engaged_enter (Function.update_self ..) .log).trans ?_
          rw [engaged_pool s rfl, Function.update_idem]
          exact (congrArg (Function.update s.engaged w) hengaged.symm).trans
            (Function.update_eq_self ..)
  | heartbeat w => exact effect_heartbeat hs
  | main => exact effect_main hs

/-! ## Writes to a closed pipe -/

/-- No worker wrote to the pipe after it was closed. -/
def NoStaleWrite (s : State ι n) : Prop := s.staleWrites = []

/-- A worker wrote to the closed pipe, or is going to. -/
def Doomed (s : State ι n) : Prop :=
  s.staleWrites ≠ [] ∨ s.closed = true ∧ ∃ w, s.engaged w = true

variable {memory : Fin n → Task}

/-- Only a descriptor is closed. -/
theorem closed_fifoWriteFd {s : State ι n} (hr : (machine ι n memory fifoWriteFd).Reachable s) :
    s.closed = true → 0 ≤ fifoWriteFd := by
  refine hr.invariant (I := fun s => s.closed = true → 0 ≤ fifoWriteFd) (fun h => by cases h) ?_
  intro s a s' hI hs
  cases step_effect hs with
  | quiet _ hclosed | took _ _ hclosed | gaveUp _ hclosed | wrote _ hclosed => exact hclosed ▸ hI
  | closed _ hclosed =>
      rw [hclosed]
      exact of_decide_eq_true

/-- A step dooms the gateway just when it is not in time. -/
theorem not_doomed_iff {s s' : State ι n} {a : Action ι}
    (hr : (machine ι n memory fifoWriteFd).Reachable s) (h : ¬ Doomed s)
    (hs : step fifoWriteFd s a = some s') : ¬ Doomed s' ↔ InTime fifoWriteFd s a := by
  obtain ⟨hstale, hengaged⟩ := not_or.mp h
  cases step_effect hs with
  | quiet hintime hclosed hwrites hsame =>
      rw [Doomed, hclosed, hwrites, hsame]
      exact iff_of_true h hintime
  | @took w _ hcount hshut hclosed hwrites hnew =>
      rw [Doomed, hclosed, hwrites, hnew, or_iff_right hstale]
      constructor
      · intro hnot
        refine ⟨fun h => (by cases h), fun _ _ hc => ?_⟩
        exact absurd ⟨hc, w, Function.update_self ..⟩ hnot
      · exact fun hintime hdoomed => hcount (hintime.2 w rfl hdoomed.1 hshut)
  | gaveUp hfd hclosed hwrites _ =>
      refine iff_of_true ?_ (inTime_of_ne (by simp) (by simp))
      rw [Doomed, hclosed, hwrites, or_iff_right hstale]
      exact fun hdoomed => absurd (closed_fifoWriteFd hr hdoomed.1) (not_le_of_gt hfd)
  | @wrote w _ hw hclosed hwrites _ =>
      refine iff_of_true ?_ (inTime_of_ne (by simp) (by simp))
      have hopen : s.closed = false := by
        by_contra hc
        exact hengaged ⟨by simpa using hc, w, hw⟩
      rw [Doomed, hclosed, hwrites, hopen, if_neg (by simp), or_iff_right hstale]
      exact fun hdoomed => by cases hdoomed.1
  | closed hpc hclosed hwrites hsame =>
      rw [Doomed, hclosed, hwrites, hsame, or_iff_right hstale, decide_eq_true_iff]
      constructor
      · intro hnot
        refine ⟨fun _ _ hfd w => ?_, fun _ h => (by cases h)⟩
        by_contra hw
        exact hnot ⟨hfd, w, by simpa using hw⟩
      · rintro hintime ⟨hfd, w, hw⟩
        rw [hintime.1 rfl hpc hfd w] at hw
        cases hw

/-- A worker that is going to write to the closed pipe does so. -/
theorem Doomed.step {s s' : State ι n} {a : Action ι}
    (hr : (machine ι n memory fifoWriteFd).Reachable s) (h : Doomed s)
    (hs : step fifoWriteFd s a = some s') : Doomed s' := by
  cases step_effect hs with
  | quiet _ hclosed hwrites hsame =>
      rw [Doomed, hclosed, hwrites, hsame]
      exact h
  | @took w _ _ _ hclosed hwrites hnew =>
      rw [Doomed, hclosed, hwrites, hnew]
      refine h.imp_right fun hdoomed => ⟨hdoomed.1, w, Function.update_self ..⟩
  | gaveUp hfd hclosed hwrites _ =>
      rw [Doomed, hclosed, hwrites]
      refine h.imp_right fun hdoomed => ?_
      exact absurd (closed_fifoWriteFd hr hdoomed.1) (not_le_of_gt hfd)
  | wrote _ _ hwrites _ =>
      refine .inl ?_
      rw [hwrites]
      split
      next => exact List.cons_ne_nil _ _
      next hopen => exact h.resolve_right fun hdoomed => hopen hdoomed.1
  | closed _ hclosed hwrites hsame =>
      rw [Doomed, hclosed, hwrites, hsame]
      refine h.imp_right fun hdoomed => ⟨?_, hdoomed.2⟩
      exact decide_eq_true (closed_fifoWriteFd hr hdoomed.1)

/-- In every run in which no worker is going to write when the pipe is closed, and none
takes a task after that, nothing is written to the closed pipe.  A run in which that is
so, and at whose end no worker is going to write, is a run of this kind. -/
theorem no_stale_write_iff {as : List (Action ι)} {s : State ι n}
    (hrun : (machine ι n memory fifoWriteFd).run as = some s) :
    ((machine ι n memory fifoWriteFd).EachStep as (InTime fifoWriteFd) →
        (machine ι n memory fifoWriteFd).Always as NoStaleWrite) ∧
      ((∀ w, s.engaged w = false) → (machine ι n memory fifoWriteFd).Always as NoStaleWrite →
        (machine ι n memory fifoWriteFd).EachStep as (InTime fifoWriteFd)) := by
  have hdoomed : (machine ι n memory fifoWriteFd).Always as (fun s => ¬ Doomed s) ↔
      (machine ι n memory fifoWriteFd).EachStep as (InTime fifoWriteFd) := by
    refine Machine.always_iff_eachStep ?_ not_doomed_iff hrun
    rintro (hstale | ⟨hclosed, -⟩)
    · exact hstale rfl
    · cases hclosed
  constructor
  · intro hC
    exact (hdoomed.mpr hC).mono fun t ht => not_not.mp (not_or.mp ht).1
  · intro hidle h
    refine hdoomed.mp (Machine.always_of_last (P := fun s => ¬ Doomed s)
      (fun hr hdoomed hs hn => hdoomed fun hd => hn (hd.step hr hs)) hrun ?_)
    rintro (hstale | ⟨-, w, hw⟩)
    · exact hstale (h as (List.prefix_refl _) s hrun)
    · rw [hidle w] at hw
      cases hw

/-- A worker is between the test and the `write` when the pipe is closed. -/
def closedUnderWorker : List (Action (Fin 4)) :=
  [.alarm, .alarm, .alarm, .alarm, .alarm, .add ∅, .acquire 0, .call 0, .heartbeat 0,
    .heartbeat 0, .main, .main, .main, .main, .heartbeat 0]

/-- The run of `closedUnderWorker`, with descriptor 5. -/
theorem run_closedUnderWorker : ∃ s, (machine (Fin 4) 256 (fun _ => ⟨0, 0⟩) 5).run
    closedUnderWorker = some s ∧ s.staleWrites = [0] ∧ ∀ w, s.engaged w = false :=
  ⟨_, rfl, rfl, by decide⟩

/-- The worker was going to write when the pipe was closed. -/
theorem no_stale_write_iff_closed : ¬ (machine (Fin 4) 256 (fun _ => ⟨0, 0⟩) 5).EachStep
    closedUnderWorker (InTime 5) := by
  obtain ⟨s, hs, hstale, -⟩ := run_closedUnderWorker
  intro hC
  have h := (no_stale_write_iff hs).1 hC _ (List.prefix_refl _) s hs
  rw [NoStaleWrite, hstale] at h
  cases h

/-- A command can be written to a descriptor that was closed. -/
theorem stale_write : ¬ ∀ s, (machine (Fin 4) 256 (fun _ => ⟨0, 0⟩) 5).Reachable s →
    NoStaleWrite s := by
  intro h
  obtain ⟨s, hs, hstale, -⟩ := run_closedUnderWorker
  have hno := h s (.of_run hs)
  rw [NoStaleWrite, hstale] at hno
  cases hno

end IotEdge.PoolTeardown
