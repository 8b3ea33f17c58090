import IotEdge.Lib.Machine
import IotEdge.Gateway.DataQueue
import IotEdge.Gateway.Logger

/-!
# Cancelling the upload thread

When the event loop has returned, `main` cancels `cloud_client_thread`, joins it, and
goes on to release the resources, with a line of the log for each.  The thread is
cancelled where it is: at a call that is a cancellation point.  It has no cleanup
handlers.

`sem_wait`, `sleep` and the calls on the socket are cancellation points, and the standard
I/O calls may be.  `queue_mutex` is held over none of them.  `log_mutex` is held over the
I/O calls of `write_log`, so a thread that is cancelled there keeps it, and `main` waits
for it at its next line.  `shutdown_unlocked_iff` says that nothing else goes wrong.
-/

namespace IotEdge.CloudCancel

/-- The threads.  `ι` are the workers of the pool. -/
inductive Thread (ι : Type) where
  | main
  | cloud
  | worker (w : ι)
deriving DecidableEq

/-- Where `cloud_client_thread` goes on after a line of the log. -/
inductive CloudNext where
  /-- To the top of the loop. -/
  | loop
  /-- To `close`, after `connect` failed. -/
  | closeFailed
  /-- To `close`, at the end of the body. -/
  | close
deriving DecidableEq, Repr

/-- Where `cloud_client_thread` is. -/
inductive CloudPc where
  | log (pc : LogPc) (next : CloudNext)
  | semWait
  /-- At `pthread_mutex_lock(&queue_mutex)`. -/
  | lock
  /-- About to take a record, with `count` records taken. -/
  | pop (count : Nat)
  /-- At the test of the inner `while`. -/
  | tryWait (count : Nat)
  /-- At `pthread_mutex_unlock(&queue_mutex)`. -/
  | unlock
  | socket
  | connect
  /-- At `close`, after `connect` failed. -/
  | closeFailed
  /-- At `sleep(3)`. -/
  | sleepFailed
  | write
  | read
  /-- At `close`, at the end of the body. -/
  | close
  /-- At the test whether the queue is empty. -/
  | test
  | sleep
  /-- The thread has ended. -/
  | exited
deriving DecidableEq, Repr

/-- Where the thread goes on. -/
def CloudNext.pc : CloudNext → CloudPc
  | .loop => .semWait
  | .closeFailed => .closeFailed
  | .close => .close

namespace CloudPc

/-- A line of the log. -/
def logging (next : CloudNext) : CloudPc := .log .lock next

/-- The thread holds `log_mutex`. -/
def holdsLog : CloudPc → Bool
  | .log pc _ => pc.holds
  | _ => false

/-- The thread holds `queue_mutex`. -/
def holdsQueue : CloudPc → Bool
  | .pop _ | .tryWait _ | .unlock => true
  | _ => false

/-- The thread is in a standard I/O call of `write_log`. -/
def inStdio : CloudPc → Bool
  | .log pc _ => pc.stdio
  | _ => false

/-- The thread can be cancelled here. -/
def cancelPoint : CloudPc → Bool
  | .log pc _ => pc.stdio
  | .semWait | .socket | .connect | .closeFailed | .sleepFailed | .write | .read | .close
  | .sleep => true
  | _ => false

end CloudPc

/-- Where `main` goes on after a line of the log. -/
inductive MainNext where
  /-- In the event loop. -/
  | polling
  /-- To the rest of the teardown, with `left` lines to write. -/
  | closing (left : Nat)
deriving DecidableEq, Repr

/-- Where `main` is, from the event loop on. -/
inductive MainPc where
  | log (pc : LogPc) (next : MainNext)
  /-- In the event loop. -/
  | polling
  /-- At `pthread_mutex_lock(&queue_mutex)`, with a record. -/
  | lock (data : IPCData)
  /-- Storing the record. -/
  | push (data : IPCData)
  /-- At `pthread_mutex_unlock(&queue_mutex)`; whether there was room. -/
  | unlock (pushed : Bool)
  | post
  | cancel
  | join
  /-- Behind it, with `left` lines of the log to write. -/
  | closing (left : Nat)
deriving DecidableEq, Repr

/-- Where `main` goes on. -/
def MainNext.pc : MainNext → MainPc
  | .polling => .polling
  | .closing left => .closing left

namespace MainPc

/-- `main` holds `log_mutex`. -/
def holdsLog : MainPc → Bool
  | .log pc _ => pc.holds
  | _ => false

/-- `main` holds `queue_mutex`. -/
def holdsQueue : MainPc → Bool
  | .push _ | .unlock _ => true
  | _ => false

/-- `pthread_join` has returned. -/
def joined : MainPc → Bool
  | .log _ (.closing _) | .closing _ => true
  | _ => false

end MainPc

/-- The threads and what they share. -/
structure State (ι : Type) where
  /-- The owner of `log_mutex`. -/
  logMutex : Option (Thread ι)
  /-- The owner of `queue_mutex`. -/
  queueMutex : Option (Thread ι)
  /-- The ring. -/
  queue : DataQueue
  /-- The value of `data_sem`. -/
  dataSem : Nat
  /-- `pthread_cancel` was called. -/
  cancelled : Bool
  /-- Where `main` is. -/
  main : MainPc
  /-- Where `cloud_client_thread` is. -/
  cloud : CloudPc
  /-- Where a worker is in `write_log`, if it is there. -/
  workers : ι → Option LogPc

/-- The labels. -/
inductive Action (ι : Type) where
  /-- The event loop gets a record. -/
  | receive (data : IPCData)
  /-- The event loop writes a line of the log. -/
  | report
  /-- The event loop returns. -/
  | leave
  /-- The next statement of `main`.  `ok` is what `fopen` returned. -/
  | main (ok : Bool)
  /-- The next statement of `cloud_client_thread`.  `ok` says whether a call succeeded. -/
  | cloud (ok : Bool)
  /-- `cloud_client_thread` is cancelled. -/
  | cancel
  /-- A worker writes a line of the log. -/
  | workerReport (w : ι)
  /-- The next statement of a worker in `write_log`. -/
  | worker (w : ι) (ok : Bool)

/-- The lines of the log after `pthread_join`: one of each of `alarm_scheduler_destroy`,
`process_pool_destroy`, `destroy_system_v_ipc` and `threadpool_destroy`, and the last. -/
def closingLines : Nat := 5

/-- `batch` has room for 50 records. -/
def batchSize : Nat := 50

variable {ι : Type} [DecidableEq ι]

/-- The next statement of `main`. -/
def stepMain (s : State ι) (ok : Bool) : Option (State ι) :=
  match s.main with
  | .log pc next => (pc.mutex .main s.logMutex).map fun owner =>
      { s with logMutex := owner, main := (pc.next ok).elim next.pc (.log · next) }
  | .polling => none
  | .lock data =>
      if s.queueMutex.isNone then some { s with queueMutex := some .main, main := .push data }
      else none
  | .push data =>
      match s.queue.push data with
      | some queue => some { s with queue := queue, main := .unlock true }
      | none => some { s with main := .unlock false }
  | .unlock pushed =>
      some { s with queueMutex := none, main := if pushed then .post else .polling }
  | .post => some { s with dataSem := s.dataSem + 1, main := .polling }
  | .cancel => some { s with cancelled := true, main := .join }
  | .join => if s.cloud = .exited then some { s with main := .closing closingLines } else none
  | .closing 0 => none
  | .closing (left + 1) => some { s with main := .log .lock (.closing left) }

/-- The next statement of `cloud_client_thread`. -/
def stepCloud (s : State ι) (ok : Bool) : Option (State ι) :=
  match s.cloud with
  | .log pc next => (pc.mutex .cloud s.logMutex).map fun owner =>
      { s with logMutex := owner, cloud := (pc.next ok).elim next.pc (.log · next) }
  | .semWait =>
      if 0 < s.dataSem then some { s with dataSem := s.dataSem - 1, cloud := .lock } else none
  | .lock =>
      if s.queueMutex.isNone then some { s with queueMutex := some .cloud, cloud := .pop 0 }
      else none
  | .pop count => some { s with queue := s.queue.pop, cloud := .tryWait (count + 1) }
  | .tryWait count =>
      if count < batchSize ∧ 0 < s.dataSem then
        some { s with dataSem := s.dataSem - 1, cloud := .pop count }
      else some { s with cloud := .unlock }
  | .unlock => some { s with queueMutex := none, cloud := .socket }
  | .socket => some { s with cloud := if ok then .connect else .logging .loop }
  | .connect => some { s with cloud := if ok then .write else .logging .closeFailed }
  | .closeFailed => some { s with cloud := .sleepFailed }
  | .sleepFailed => some { s with cloud := .semWait }
  | .write => some { s with cloud := if ok then .read else .logging .close }
  -- Both answers of the server are logged, and no answer is not.
  | .read => some { s with cloud := if ok then .logging .close else .close }
  | .close => some { s with cloud := .test }
  | .test =>
      some { s with cloud := if s.queue.queueHead = s.queue.queueTail then .sleep else .semWait }
  | .sleep => some { s with cloud := .semWait }
  | .exited => none

/-- One step. -/
def step (s : State ι) : Action ι → Option (State ι)
  | .receive data => if s.main = .polling then some { s with main := .lock data } else none
  | .report => if s.main = .polling then some { s with main := .log .lock .polling } else none
  | .leave => if s.main = .polling then some { s with main := .cancel } else none
  | .main ok => stepMain s ok
  | .cloud ok => stepCloud s ok
  | .cancel =>
      if s.cancelled ∧ s.cloud.cancelPoint then some { s with cloud := .exited } else none
  | .workerReport w =>
      match s.workers w with
      | none => some { s with workers := Function.update s.workers w (some .lock) }
      | some _ => none
  | .worker w ok =>
      match s.workers w with
      | none => none
      | some pc => (pc.mutex (.worker w) s.logMutex).map fun owner =>
          { s with logMutex := owner, workers := Function.update s.workers w (pc.next ok) }

/-- The state when the thread starts: it is about to log that it is ready. -/
def start (ι : Type) : State ι where
  logMutex := none
  queueMutex := none
  queue := .init
  dataSem := 0
  cancelled := false
  main := .polling
  cloud := .logging .loop
  workers := fun _ => none

/-- The gateway from the start of the event loop on, with workers `ι`. -/
def machine (ι : Type) [DecidableEq ι] : Machine (State ι) (Action ι) := ⟨start ι, step⟩

/-! ## What the threads do to the mutexes -/

namespace State

/-- The thread holds `log_mutex`. -/
def holdsLog (s : State ι) : Thread ι → Bool
  | .main => s.main.holdsLog
  | .cloud => s.cloud.holdsLog
  | .worker w => (s.workers w).any LogPc.holds

/-- The thread holds `queue_mutex`. -/
def holdsQueue (s : State ι) : Thread ι → Bool
  | .main => s.main.holdsQueue
  | .cloud => s.cloud.holdsQueue
  | .worker _ => false

end State

theorem MainNext.holdsLog_pc (next : MainNext) : next.pc.holdsLog = false := by
  cases next <;> rfl

theorem MainNext.holdsQueue_pc (next : MainNext) : next.pc.holdsQueue = false := by
  cases next <;> rfl

theorem CloudNext.holdsLog_pc (next : CloudNext) : next.pc.holdsLog = false := by
  cases next <;> rfl

theorem CloudNext.holdsQueue_pc (next : CloudNext) : next.pc.holdsQueue = false := by
  cases next <;> rfl

/-- What a statement of `main` does. -/
structure MainStep (s s' : State ι) : Prop where
  cloud : s'.cloud = s.cloud
  workers : s'.workers = s.workers
  log : Mutex.Act .main s.logMutex s.main.holdsLog s'.logMutex s'.main.holdsLog
  queue : Mutex.Act .main s.queueMutex s.main.holdsQueue s'.queueMutex s'.main.holdsQueue
  joined : s'.main.joined = true → s.main.joined = true ∨ s.cloud = .exited

/-- What a statement of `cloud_client_thread` does. -/
structure CloudStep (s s' : State ι) : Prop where
  main : s'.main = s.main
  workers : s'.workers = s.workers
  runs : s.cloud ≠ .exited
  log : Mutex.Act .cloud s.logMutex s.cloud.holdsLog s'.logMutex s'.cloud.holdsLog
  queue : Mutex.Act .cloud s.queueMutex s.cloud.holdsQueue s'.queueMutex s'.cloud.holdsQueue

omit [DecidableEq ι] in
theorem stepMain_spec {s s' : State ι} {ok : Bool} (hs : stepMain s ok = some s') :
    MainStep s s' := by
  obtain ⟨logMutex, queueMutex, queue, dataSem, cancelled, main, cloud, workers⟩ := s
  cases main with
  | log pc next =>
      obtain ⟨owner, howner, rfl⟩ := Option.map_eq_some_iff.mp hs
      have hact := LogPc.act howner ok
      dsimp only at hact ⊢
      cases hpc : pc.next ok with
      | none =>
          rw [hpc] at hact
          refine ⟨rfl, rfl, ?_, ?_, fun h => .inl ?_⟩
          · exact next.holdsLog_pc.symm ▸ hact
          · exact next.holdsQueue_pc.symm ▸ .frame
          · cases next with
            | polling => cases h
            | closing left => rfl
      | some pc' =>
          rw [hpc] at hact
          refine ⟨rfl, rfl, hact, .frame, fun h => .inl ?_⟩
          cases next with
          | polling => cases h
          | closing left => rfl
  | polling => cases hs
  | lock data =>
      simp only [stepMain] at hs
      split at hs
      next hfree =>
        cases Option.isNone_iff_eq_none.mp hfree
        cases hs
        exact ⟨rfl, rfl, .frame, .acquire, .inl⟩
      next => cases hs
  | push data =>
      simp only [stepMain] at hs
      split at hs <;> cases hs <;> exact ⟨rfl, rfl, .frame, .frame, .inl⟩
  | unlock pushed =>
      cases hs
      cases pushed <;> exact ⟨rfl, rfl, .frame, .release, .inl⟩
  | post | cancel =>
      cases hs
      exact ⟨rfl, rfl, .frame, .frame, .inl⟩
  | join =>
      simp only [stepMain] at hs
      split at hs
      next hexited =>
        cases hs
        exact ⟨rfl, rfl, .frame, .frame, fun _ => .inr hexited⟩
      next => cases hs
  | closing left =>
      cases left with
      | zero => cases hs
      | succ left =>
          cases hs
          exact ⟨rfl, rfl, .frame, .frame, .inl⟩

omit [DecidableEq ι] in
theorem stepCloud_spec {s s' : State ι} {ok : Bool} (hs : stepCloud s ok = some s') :
    CloudStep s s' := by
  obtain ⟨logMutex, queueMutex, queue, dataSem, cancelled, main, cloud, workers⟩ := s
  have hruns : cloud ≠ .exited := by
    rintro rfl
    cases hs
  cases cloud with
  | log pc next =>
      obtain ⟨owner, howner, rfl⟩ := Option.map_eq_some_iff.mp hs
      have hact := LogPc.act howner ok
      dsimp only at hact ⊢
      cases hpc : pc.next ok with
      | none =>
          rw [hpc] at hact
          refine ⟨rfl, rfl, hruns, ?_, ?_⟩
          · exact next.holdsLog_pc.symm ▸ hact
          · exact next.holdsQueue_pc.symm ▸ .frame
      | some pc' =>
          rw [hpc] at hact
          exact ⟨rfl, rfl, hruns, hact, .frame⟩
  | semWait =>
      simp only [stepCloud] at hs
      split at hs
      next =>
        cases hs
        exact ⟨rfl, rfl, hruns, .frame, .frame⟩
      next => cases hs
  | lock =>
      simp only [stepCloud] at hs
      split at hs
      next hfree =>
        cases Option.isNone_iff_eq_none.mp hfree
        cases hs
        exact ⟨rfl, rfl, hruns, .frame, .acquire⟩
      next => cases hs
  | tryWait count =>
      simp only [stepCloud] at hs
      split at hs <;> cases hs <;> exact ⟨rfl, rfl, hruns, .frame, .frame⟩
  | unlock =>
      cases hs
      exact ⟨rfl, rfl, hruns, .frame, .release⟩
  | socket | connect | write | read =>
      cases hs
      cases ok <;> exact ⟨rfl, rfl, hruns, .frame, .frame⟩
  | test =>
      cases hs
      dsimp only
      split <;> exact ⟨rfl, rfl, hruns, .frame, .frame⟩
  | pop _ | closeFailed | sleepFailed | close | sleep =>
      cases hs
      exact ⟨rfl, rfl, hruns, .frame, .frame⟩
  | exited => cases hs

theorem holdsLog_main {s s' : State ι} (h : MainStep s s') :
    s'.holdsLog = Function.update s.holdsLog .main s'.main.holdsLog := by
  funext t
  cases t with
  | main => rfl
  | cloud => exact congrArg CloudPc.holdsLog h.cloud
  | worker w => exact congrArg (fun workers => (workers w).any LogPc.holds) h.workers

theorem holdsQueue_main {s s' : State ι} (h : MainStep s s') :
    s'.holdsQueue = Function.update s.holdsQueue .main s'.main.holdsQueue := by
  funext t
  cases t with
  | main => rfl
  | cloud => exact congrArg CloudPc.holdsQueue h.cloud
  | worker w => rfl

theorem holdsLog_cloud {s s' : State ι} (hmain : s'.main = s.main)
    (hworkers : s'.workers = s.workers) :
    s'.holdsLog = Function.update s.holdsLog .cloud s'.cloud.holdsLog := by
  funext t
  cases t with
  | main => exact congrArg MainPc.holdsLog hmain
  | cloud => rfl
  | worker w => exact congrArg (fun workers => (workers w).any LogPc.holds) hworkers

theorem holdsQueue_cloud {s s' : State ι} (hmain : s'.main = s.main) :
    s'.holdsQueue = Function.update s.holdsQueue .cloud s'.cloud.holdsQueue := by
  funext t
  cases t with
  | main => exact congrArg MainPc.holdsQueue hmain
  | cloud => rfl
  | worker w => rfl

theorem holdsLog_cancel (s : State ι) : State.holdsLog { s with cloud := .exited } =
    Function.update s.holdsLog .cloud false := holdsLog_cloud rfl rfl

theorem holdsQueue_cancel (s : State ι) : State.holdsQueue { s with cloud := .exited } =
    Function.update s.holdsQueue .cloud false := holdsQueue_cloud rfl

theorem holdsLog_worker (s : State ι) (owner : Option (Thread ι)) (w : ι) (pc : Option LogPc) :
    State.holdsLog { s with logMutex := owner, workers := Function.update s.workers w pc } =
      Function.update s.holdsLog (.worker w) (pc.any LogPc.holds) := by
  funext t
  cases t with
  | main | cloud => rfl
  | worker v =>
      rcases eq_or_ne v w with rfl | hne
      · simp [State.holdsLog]
      · have hthread : Thread.worker v ≠ .worker w := fun h => hne (Thread.worker.inj h)
        simp [State.holdsLog, hne]

/-- What a step does. -/
inductive Effect (s : State ι) : Action ι → State ι → Prop where
  | main {a : Action ι} {s' : State ι} : a ≠ .cancel → MainStep s s' → Effect s a s'
  | cloud {a : Action ι} {s' : State ι} : a ≠ .cancel → CloudStep s s' → Effect s a s'
  | worker {a : Action ι} {w : ι} {owner : Option (Thread ι)} {pc : Option LogPc} :
      a ≠ .cancel →
      Mutex.Act (.worker w) s.logMutex (s.holdsLog (.worker w)) owner (pc.any LogPc.holds) →
      Effect s a { s with logMutex := owner, workers := Function.update s.workers w pc }
  | cancel : s.cloud.cancelPoint = true → Effect s .cancel { s with cloud := .exited }

omit [DecidableEq ι] in
/-- A step of the main thread from its loop, where it holds nothing. -/
theorem mainStep_polling {s : State ι} {pc : MainPc} (hpc : s.main = .polling)
    (hlog : pc.holdsLog = false) (hqueue : pc.holdsQueue = false) (hjoined : pc.joined = false) :
    MainStep s { s with main := pc } := by
  refine ⟨rfl, rfl, ?_, ?_, fun h => ?_⟩
  · rw [hpc, hlog]
    exact .frame
  · rw [hpc, hqueue]
    exact .frame
  · rw [hjoined] at h
    cases h

theorem step_effect {s s' : State ι} {a : Action ι} (hs : step s a = some s') : Effect s a s' := by
  cases a with
  | receive data | report | leave =>
      simp only [step] at hs
      split at hs
      next hpc =>
        cases hs
        exact .main (by simp) (mainStep_polling hpc rfl rfl rfl)
      next => cases hs
  | main ok => exact .main (by simp) (stepMain_spec hs)
  | cloud ok => exact .cloud (by simp) (stepCloud_spec hs)
  | cancel =>
      simp only [step] at hs
      split at hs
      next h =>
        cases hs
        exact .cancel h.2
      next => cases hs
  | workerReport w =>
      simp only [step] at hs
      split at hs
      next hw =>
        cases hs
        refine .worker (by simp) ?_
        rw [State.holdsLog, hw]
        exact .frame
      next => cases hs
  | worker w ok =>
      simp only [step] at hs
      split at hs
      next => cases hs
      next pc hw =>
        obtain ⟨owner, howner, rfl⟩ := Option.map_eq_some_iff.mp hs
        refine .worker (by simp) ?_
        rw [State.holdsLog, hw]
        exact LogPc.act howner ok

/-! ## The invariant -/

/-- What holds in every state. -/
structure Inv (s : State ι) : Prop where
  /-- Who is between lock and unlock of `log_mutex` owns it. -/
  log : Mutex.Respected s.logMutex s.holdsLog
  /-- The threads that are not cancelled are there when they own it. -/
  logLive : ∀ t, t ≠ .cloud → Mutex.Live s.logMutex s.holdsLog t
  /-- Who is between lock and unlock of `queue_mutex` owns it. -/
  queue : Mutex.Respected s.queueMutex s.holdsQueue
  /-- Who owns `queue_mutex` is there. -/
  queueLive : ∀ t, Mutex.Live s.queueMutex s.holdsQueue t
  /-- A thread that was joined has ended. -/
  joined : s.main.joined = true → s.cloud = .exited

theorem CloudPc.holdsQueue_of_cancelPoint {pc : CloudPc} (h : pc.cancelPoint = true) :
    pc.holdsQueue = false := by
  cases pc with
  | pop | tryWait | unlock => cases h
  | _ => rfl

theorem CloudPc.inStdio_of_cancelPoint {pc : CloudPc} (h : pc.cancelPoint = true) :
    pc.inStdio = pc.holdsLog := by
  cases pc with
  | log pc next => exact h.trans (LogPc.holds_of_stdio h).symm
  | _ => rfl

omit [DecidableEq ι] in
theorem inv_start : Inv (start ι) where
  log := by
    intro t h
    cases t <;> cases h
  logLive := fun _ _ h => by cases h
  queue := by
    intro t h
    cases t <;> cases h
  queueLive := fun _ h => by cases h
  joined := fun h => by cases h

theorem Inv.step {s s' : State ι} {a : Action ι} (h : Inv s) (hs : step s a = some s') :
    Inv s' := by
  cases step_effect hs with
  | main _ hstep =>
      have hlog := holdsLog_main hstep
      have hqueue := holdsQueue_main hstep
      constructor
      · exact hlog ▸ hstep.log.respected h.log
      · exact fun t ht => hlog ▸ hstep.log.live (h.logLive t ht)
      · exact hqueue ▸ hstep.queue.respected h.queue
      · exact fun t => hqueue ▸ hstep.queue.live (h.queueLive t)
      · intro hjoined
        rw [hstep.cloud]
        exact (hstep.joined hjoined).elim h.joined id
  | cloud _ hstep =>
      have hlog := holdsLog_cloud hstep.main hstep.workers
      have hqueue := holdsQueue_cloud hstep.main
      constructor
      · exact hlog ▸ hstep.log.respected h.log
      · exact fun t ht => hlog ▸ hstep.log.live (h.logLive t ht)
      · exact hqueue ▸ hstep.queue.respected h.queue
      · exact fun t => hqueue ▸ hstep.queue.live (h.queueLive t)
      · exact fun hjoined => absurd (h.joined (hstep.main ▸ hjoined)) hstep.runs
  | @worker _ w owner pc _ hact =>
      have hlog := holdsLog_worker s owner w pc
      exact ⟨hlog ▸ hact.respected h.log, fun t ht => hlog ▸ hact.live (h.logLive t ht),
        h.queue, h.queueLive, h.joined⟩
  | cancel hpoint =>
      have hlog := holdsLog_cancel s
      have hqueue := holdsQueue_cancel s
      constructor
      · exact hlog ▸ h.log.ends .cloud
      · exact fun t ht => hlog ▸ (h.logLive t ht).ends_of_ne ht
      · exact hqueue ▸ h.queue.ends .cloud
      · intro t
        rw [hqueue]
        rcases eq_or_ne t .cloud with rfl | ht
        · exact ((h.queueLive .cloud).ends_iff h.queue).mpr
            (CloudPc.holdsQueue_of_cancelPoint hpoint)
        · exact (h.queueLive t).ends_of_ne ht
      · exact fun _ => rfl

theorem Inv.of_reachable {s : State ι} (hr : (machine ι).Reachable s) : Inv s :=
  hr.invariant inv_start Inv.step

/-! ## After the join -/

/-- If the upload thread owns `log_mutex`, it is going to give it back. -/
def LogLive (s : State ι) : Prop := Mutex.Live s.logMutex s.holdsLog .cloud

/-- After the join no mutex is owned by the thread that has ended, and `main` gets
`log_mutex` whenever it asks for it. -/
def ShutsDown (s : State ι) : Prop :=
  s.main.joined = true → s.logMutex ≠ some .cloud ∧ s.queueMutex ≠ some .cloud ∧
    ∀ next, s.main = .log .lock next →
      ∃ as t, (machine ι).runFrom s as = some t ∧ t.main = .log .fopen next

/-- The upload thread is not cancelled in a standard I/O call of `write_log`. -/
def CancelledOutside (s : State ι) (a : Action ι) : Prop :=
  a = .cancel → s.cloud.inStdio = false

/-- A step loses `log_mutex` just when it cancels the thread in `write_log`. -/
theorem logLive_iff {s s' : State ι} {a : Action ι} (hr : (machine ι).Reachable s)
    (h : LogLive s) (hs : step s a = some s') : LogLive s' ↔ CancelledOutside s a := by
  have hI := Inv.of_reachable hr
  cases step_effect hs with
  | main ha hstep =>
      refine iff_of_true ?_ fun hcancel => absurd hcancel ha
      rw [LogLive, holdsLog_main hstep]
      exact hstep.log.live h
  | cloud ha hstep =>
      refine iff_of_true ?_ fun hcancel => absurd hcancel ha
      rw [LogLive, holdsLog_cloud hstep.main hstep.workers]
      exact hstep.log.live h
  | worker ha hact =>
      refine iff_of_true ?_ fun hcancel => absurd hcancel ha
      rw [LogLive, holdsLog_worker]
      exact hact.live h
  | cancel hpoint =>
      rw [LogLive, holdsLog_cancel, CancelledOutside,
        CloudPc.inStdio_of_cancelPoint hpoint]
      exact (Mutex.Live.ends_iff h hI.log).trans ⟨fun hin _ => hin, fun hin => hin rfl⟩

/-- What is lost stays lost. -/
theorem not_logLive {s s' : State ι} {a : Action ι} (hr : (machine ι).Reachable s)
    (h : ¬ LogLive s) (hs : step s a = some s') : ¬ LogLive s' := by
  have hI := Inv.of_reachable hr
  cases step_effect hs with
  | main _ hstep =>
      rw [LogLive, holdsLog_main hstep]
      exact hstep.log.not_live hI.log h
  | cloud _ hstep =>
      rw [LogLive, holdsLog_cloud hstep.main hstep.workers]
      exact hstep.log.not_live hI.log h
  | worker _ hact =>
      rw [LogLive, holdsLog_worker]
      exact hact.not_live hI.log h
  | cancel _ =>
      rw [LogLive, holdsLog_cancel]
      exact Mutex.not_live_ends h

/-- A worker in `write_log` gets to the unlock. -/
theorem worker_unlocks {w : ι} {pc : LogPc} (hpc : pc.holds = true) {s : State ι}
    (hw : s.workers w = some pc) : ∃ as t, (machine ι).runFrom s as = some t ∧
      t.logMutex = none ∧ t.main = s.main := by
  induction hleft : pc.left using Nat.strong_induction_on generalizing pc s with
  | _ n ih =>
      rcases eq_or_ne pc .unlock with rfl | hne
      · refine ⟨[.worker w true],
          { s with logMutex := none, workers := Function.update s.workers w none }, ?_, rfl, rfl⟩
        rw [Machine.runFrom_cons]
        simp only [machine, step, hw]
        rfl
      · obtain ⟨pc', hnext, hpc', hlt, hmutex⟩ :=
          LogPc.next_of_holds hpc hne (Thread.worker w) s.logMutex
        obtain ⟨as, t, hrun, hfree, hmain⟩ := ih pc'.left (hleft ▸ hlt) hpc'
          (s := { s with workers := Function.update s.workers w (some pc') })
          (Function.update_self ..) rfl
        refine ⟨.worker w true :: as, t, ?_, hfree, hmain⟩
        rw [Machine.runFrom_cons]
        simp only [machine, step, hw, hmutex, hnext]
        exact hrun

/-- `main` gets `log_mutex`. -/
theorem main_locks {s : State ι} (hI : Inv s) (hfree : s.logMutex ≠ some .cloud)
    {next : MainNext} (hpc : s.main = .log .lock next) :
    ∃ as t, (machine ι).runFrom s as = some t ∧ t.main = .log .fopen next := by
  have hlock : ∀ t : State ι, t.logMutex = none → t.main = s.main →
      ∃ t', (machine ι).step t (.main true) = some t' ∧ t'.main = .log .fopen next := by
    intro t hnone hmain
    refine ⟨{ t with logMutex := some .main, main := .log .fopen next }, ?_, rfl⟩
    simp only [machine, step, stepMain, hmain, hpc, LogPc.mutex, hnone]
    rfl
  cases howner : s.logMutex with
  | none =>
      obtain ⟨t, ht, hmain⟩ := hlock s howner rfl
      refine ⟨[.main true], t, ?_, hmain⟩
      rw [Machine.runFrom_cons, ht]
      rfl
  | some owner =>
      cases owner with
      | cloud => exact absurd howner hfree
      | main =>
          have hholds := hI.logLive .main (by simp) howner
          rw [State.holdsLog, hpc] at hholds
          cases hholds
      | worker w =>
          have hholds := hI.logLive (.worker w) (by simp) howner
          obtain ⟨pc, hw, hpc⟩ := (Option.any_eq_true _ _).mp hholds
          obtain ⟨as, t, hrun, hnone, hmain⟩ := worker_unlocks hpc hw
          obtain ⟨t', ht', hmain'⟩ := hlock t hnone hmain
          refine ⟨as ++ [.main true], t', ?_, hmain'⟩
          rw [Machine.runFrom_append, hrun, Option.bind_some, Machine.runFrom_cons, ht']
          rfl

/-- While the upload thread can give `log_mutex` back, the teardown goes on. -/
theorem LogLive.shutsDown {s : State ι} (h : LogLive s) (hI : Inv s) : ShutsDown s := by
  intro hjoined
  have hexited := hI.joined hjoined
  have hfree : s.logMutex ≠ some .cloud := by
    intro howner
    have hholds := h howner
    rw [State.holdsLog, hexited] at hholds
    cases hholds
  refine ⟨hfree, ?_, fun next hpc => main_locks hI hfree hpc⟩
  intro howner
  have hholds := hI.queueLive .cloud howner
  rw [State.holdsQueue, hexited] at hholds
  cases hholds

/-- In every run in which the upload thread is not cancelled in a standard I/O call of
`write_log`, `main` inherits no mutex and always gets `log_mutex`.  A run with a join in
which that is so is a run of this kind. -/
theorem shutdown_unlocked_iff {as : List (Action ι)} {s : State ι}
    (hrun : (machine ι).run as = some s) :
    ((machine ι).EachStep as CancelledOutside → (machine ι).Always as ShutsDown) ∧
      (s.main.joined = true → (machine ι).Always as ShutsDown →
        (machine ι).EachStep as CancelledOutside) := by
  have hlive : (machine ι).Always as LogLive ↔ (machine ι).EachStep as CancelledOutside :=
    Machine.always_iff_eachStep (fun h => by cases h) logLive_iff hrun
  constructor
  · intro hC pre hpre t ht
    exact (hlive.mpr hC pre hpre t ht).shutsDown (Inv.of_reachable (.of_run ht))
  · intro hjoined h
    refine hlive.mp (Machine.always_of_last not_logLive hrun ?_)
    exact fun howner => absurd howner (h as (List.prefix_refl _) s hrun hjoined).1

/-- The thread is cancelled while it opens the log file for its first line. -/
def cancelledInLog : List (Action (Fin 4)) :=
  [.cloud true, .leave, .main true, .cancel, .main true]

/-- `log_mutex` is lost. -/
theorem shutdown_unlocked_iff_in_log : ¬ (machine (Fin 4)).Always cancelledInLog ShutsDown := by
  have hrun : ∃ s, (machine (Fin 4)).run cancelledInLog = some s ∧ s.main.joined = true :=
    ⟨_, rfl, rfl⟩
  have hbefore : ∃ s, (machine (Fin 4)).run [.cloud true, .leave, .main true] = some s ∧
      s.cloud.inStdio = true := ⟨_, rfl, rfl⟩
  obtain ⟨s, hs, hjoined⟩ := hrun
  obtain ⟨t, ht, hstdio⟩ := hbefore
  intro h
  have hC := (shutdown_unlocked_iff hs).2 hjoined h
  have hout := hC _ .cancel ⟨[.main true], rfl⟩ t ht rfl
  rw [hstdio] at hout
  cases hout

/-- `main` waits for ever for `log_mutex`. -/
theorem log_mutex_abandoned :
    ¬ ∀ s, (machine (Fin 4)).Reachable s → ShutsDown s := by
  intro h
  have hrun : ∃ s, (machine (Fin 4)).run cancelledInLog = some s ∧ s.main.joined = true ∧
      s.logMutex = some .cloud := ⟨_, rfl, rfl, rfl⟩
  obtain ⟨s, hs, hjoined, howner⟩ := hrun
  exact (h s (.of_run hs) hjoined).1 howner

end IotEdge.CloudCancel
