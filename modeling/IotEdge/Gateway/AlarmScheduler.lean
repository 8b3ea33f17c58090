import Mathlib.Data.List.FinRange
import Mathlib.Logic.Function.Basic
import IotEdge.Gateway.ThreadPool

/-!
# The alarm scheduler

`alarm_scheduler.c` keeps up to 16 periodic tasks.  The kernel sends `SIGALRM`
once a second, and the handler `handle_sigalrm` goes over the slots.  A slot in
use counts down.  When it comes to zero it starts again, and its task is handed
to the thread pool.
-/

namespace IotEdge

open ThreadPool (Ptr Task)

/-- `MAX_ALARM_TASKS`. -/
abbrev maxAlarmTasks : Nat := 16

/-- `alarm_task_t`. -/
structure AlarmTask where
  inUse : Bool
  /-- The period in seconds. -/
  interval : Int
  /-- The seconds left. -/
  ticksLeft : Int
  /-- The function to call. -/
  func : Ptr
  /-- Its argument. -/
  arg : Ptr
deriving DecidableEq, Repr

namespace AlarmTask

/-- A slot of a cleared table. -/
def zeroed : AlarmTask := ⟨false, 0, 0, 0, 0⟩

/-- The countdown of a slot in `handle_sigalrm`, and whether its task is due. -/
def tick (task : AlarmTask) : Bool × AlarmTask :=
  if task.inUse then
    let ticksLeft := task.ticksLeft - 1
    if ticksLeft ≤ 0 then (true, { task with ticksLeft := task.interval })
    else (false, { task with ticksLeft := ticksLeft })
  else (false, task)

/-- What is handed to the thread pool. -/
def task (task : AlarmTask) : Task := ⟨task.func, task.arg⟩

end AlarmTask

/-- `tasks`. -/
abbrev AlarmTable := Fin maxAlarmTasks → AlarmTask

namespace AlarmTable

/-- The table after `memset`. -/
def zeroed : AlarmTable := fun _ => .zeroed

/-- The first free slot. -/
def firstFree (tasks : AlarmTable) : Option (Fin maxAlarmTasks) :=
  (List.finRange maxAlarmTasks).find? fun i => (tasks i).inUse = false

/-- `alarm_scheduler_add_task`: its result and the table. -/
def addTask (tasks : AlarmTable) (intervalSec : Int) (func arg : Ptr) : Int × AlarmTable :=
  if intervalSec ≤ 0 ∨ func = 0 then (-1, tasks)
  else match tasks.firstFree with
    | some i => (i, Function.update tasks i ⟨true, intervalSec, intervalSec, func, arg⟩)
    | none => (-1, tasks)

end AlarmTable

end IotEdge
