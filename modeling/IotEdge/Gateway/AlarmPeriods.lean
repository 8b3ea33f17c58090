import Mathlib.Data.Fintype.Card
import Mathlib.Data.Nat.ModEq
import IotEdge.Gateway.AlarmScheduler

/-!
# Periods

A task that was registered with an interval is handed to the thread pool whenever so
many signals have come since.  Tasks are never taken out of the table, so a slot that was
given away stays with its task, and the count-down of a slot depends on nothing but the
signals (`Counting`).
-/

namespace IotEdge

open ThreadPool (Ptr Task)

/-- The tasks among some calls of `threadpool_add` that were handed over for a slot. -/
def callsOf (i : Fin maxAlarmTasks) (calls : List (Fin maxAlarmTasks × Task)) : List Task :=
  (calls.filter fun call => call.1 = i).map Prod.snd

namespace AlarmTable

/-- A turn of the loop of `handle_sigalrm`, with `g_threadpool` set: the calls of
`threadpool_add` so far, with their slots, and the table. -/
def tickSlot (s : List (Fin maxAlarmTasks × Task) × AlarmTable) (i : Fin maxAlarmTasks) :
    List (Fin maxAlarmTasks × Task) × AlarmTable :=
  (if (s.2 i).tick.1 then s.1 ++ [(i, (s.2 i).task)] else s.1,
    Function.update s.2 i (s.2 i).tick.2)

/-- `handle_sigalrm`: its calls of `threadpool_add` and the table. -/
def handleSigalrm (tasks : AlarmTable) : List (Fin maxAlarmTasks × Task) × AlarmTable :=
  (List.finRange maxAlarmTasks).foldl tickSlot ([], tasks)

end AlarmTable

/-- What happens to the scheduler. -/
inductive AlarmEvent where
  /-- A call of `alarm_scheduler_add_task`. -/
  | add (intervalSec : Int) (func arg : Ptr)
  /-- A signal. -/
  | tick
deriving DecidableEq

/-- The table, and what the functions did so far. -/
structure AlarmScheduler where
  tasks : AlarmTable
  /-- The calls of `threadpool_add`, in order. -/
  handed : List (Fin maxAlarmTasks × Task)
  /-- The ids that `alarm_scheduler_add_task` returned, without the refusals. -/
  taskIds : List Int

namespace AlarmScheduler

/-- `alarm_scheduler_init`. -/
def init : AlarmScheduler := ⟨.zeroed, [], []⟩

/-- One event. -/
def step (s : AlarmScheduler) : AlarmEvent → AlarmScheduler
  | .add intervalSec func arg =>
      let (taskId, tasks) := s.tasks.addTask intervalSec func arg
      { s with
        tasks := tasks
        taskIds := if 0 ≤ taskId then s.taskIds ++ [taskId] else s.taskIds }
  | .tick =>
      { s with
        tasks := s.tasks.handleSigalrm.2
        handed := s.handed ++ s.tasks.handleSigalrm.1 }

/-- The scheduler after some events. -/
def run (events : List AlarmEvent) : AlarmScheduler := events.foldl step init

end AlarmScheduler

/-! ## One signal -/

theorem callsOf_append (i : Fin maxAlarmTasks) (calls calls' : List (Fin maxAlarmTasks × Task)) :
    callsOf i (calls ++ calls') = callsOf i calls ++ callsOf i calls' := by
  rw [callsOf, List.filter_append, List.map_append]
  rfl

theorem callsOf_singleton (i j : Fin maxAlarmTasks) (task : Task) :
    callsOf i [(j, task)] = if j = i then [task] else [] := by
  rw [callsOf]
  split
  next h => simp [h]
  next h => simp [h]

namespace AlarmTable

theorem foldl_tickSlot {slots : List (Fin maxAlarmTasks)} (hslots : slots.Nodup)
    (s : List (Fin maxAlarmTasks × Task) × AlarmTable) (i : Fin maxAlarmTasks) :
    (slots.foldl tickSlot s).2 i = (if i ∈ slots then (s.2 i).tick.2 else s.2 i) ∧
      callsOf i (slots.foldl tickSlot s).1 =
        callsOf i s.1 ++ if i ∈ slots ∧ (s.2 i).tick.1 then [(s.2 i).task] else [] := by
  induction slots generalizing s with
  | nil => simp
  | cons j slots ih =>
      obtain ⟨hj, hslots⟩ := List.nodup_cons.mp hslots
      obtain ⟨htable, hcalls⟩ := ih hslots (tickSlot s j)
      rw [List.foldl_cons, htable, hcalls]
      rcases eq_or_ne i j with rfl | hne
      · simp only [hj, if_false, false_and, List.mem_cons_self, if_true, true_and, tickSlot,
          Function.update_self, List.append_nil]
        split
        next => rw [callsOf_append, callsOf_singleton, if_pos rfl]
        next => rw [List.append_nil]
      · have hmem : i ∈ j :: slots ↔ i ∈ slots := by simp [hne]
        have hslot : (tickSlot s j).2 i = s.2 i := Function.update_of_ne hne _ _
        have hfirst : callsOf i (tickSlot s j).1 = callsOf i s.1 := by
          rw [tickSlot]
          dsimp only
          split
          next => rw [callsOf_append, callsOf_singleton, if_neg hne.symm, List.append_nil]
          next => rfl
        simp only [hmem, hslot, hfirst, and_self]

/-- A signal counts every slot down. -/
theorem handleSigalrm_snd (tasks : AlarmTable) (i : Fin maxAlarmTasks) :
    tasks.handleSigalrm.2 i = (tasks i).tick.2 := by
  have h := (foldl_tickSlot (List.nodup_finRange _) ([], tasks) i).1
  rwa [if_pos (List.mem_finRange i)] at h

/-- A signal hands over the task of a slot once, if it is due. -/
theorem callsOf_handleSigalrm (tasks : AlarmTable) (i : Fin maxAlarmTasks) :
    callsOf i tasks.handleSigalrm.1 = if (tasks i).tick.1 then [(tasks i).task] else [] := by
  have h := (foldl_tickSlot (List.nodup_finRange _) ([], tasks) i).2
  simp only [List.mem_finRange, true_and] at h
  exact h

/-! ## One registration -/

theorem inUse_of_firstFree {tasks : AlarmTable} {i : Fin maxAlarmTasks}
    (h : tasks.firstFree = some i) : (tasks i).inUse = false := by
  have hfound := List.find?_some h
  simpa using hfound

/-- What a registration does. -/
inductive AddTask (tasks : AlarmTable) (intervalSec : Int) (func arg : Ptr) :
    Int × AlarmTable → Prop where
  /-- It is refused. -/
  | refused : AddTask tasks intervalSec func arg (-1, tasks)
  /-- It gets a free slot. -/
  | accepted {i : Fin maxAlarmTasks} : 0 < intervalSec → (tasks i).inUse = false →
      AddTask tasks intervalSec func arg
        (i, Function.update tasks i ⟨true, intervalSec, intervalSec, func, arg⟩)

theorem addTask_cases (tasks : AlarmTable) (intervalSec : Int) (func arg : Ptr) :
    AddTask tasks intervalSec func arg (tasks.addTask intervalSec func arg) := by
  rw [addTask]
  split
  next => exact .refused
  next hok =>
    split
    next i hfree =>
      have hpos : 0 < intervalSec := by
        by_contra hle
        exact hok (.inl (not_lt.mp hle))
      exact .accepted hpos (inUse_of_firstFree hfree)
    next => exact .refused

end AlarmTable

/-! ## One slot -/

theorem AlarmTask.inUse_tick (task : AlarmTask) : task.tick.2.inUse = task.inUse := by
  rw [tick]
  split
  next =>
    dsimp only
    split <;> rfl
  next => rfl

theorem AlarmTask.tick_of_free {task : AlarmTask} (h : task.inUse = false) :
    task.tick.1 = false := by
  rw [tick, h]
  rfl

/-- The signals that complete a period are those whose number is a multiple of it. -/
theorem AlarmTask.tick_of_count {n : Nat} (hn : 0 < n) (k : Nat) (func arg : Ptr) :
    tick ⟨true, n, n - (k % n : Nat), func, arg⟩ =
      (decide (n ∣ k + 1), ⟨true, n, n - ((k + 1) % n : Nat), func, arg⟩) := by
  have hlt := Nat.mod_lt k hn
  have hlt' := Nat.mod_lt (k + 1) hn
  have hk := Nat.div_add_mod k n
  have hk' := Nat.div_add_mod (k + 1) n
  rw [Nat.succ_div] at hk'
  simp only [tick, if_true]
  rcases Decidable.em (n ∣ k + 1) with hdue | hwait
  · rw [if_pos hdue, Nat.mul_add, Nat.mul_one] at hk'
    rw [if_pos (by omega), Nat.mod_eq_zero_of_dvd hdue, decide_eq_true hdue]
    simp
  · rw [if_neg hwait, Nat.add_zero] at hk'
    have hmod : (k + 1) % n = k % n + 1 := by omega
    have hne : (k + 1) % n ≠ 0 := fun hzero => hwait (Nat.dvd_of_mod_eq_zero hzero)
    rw [if_neg (by omega), hmod, decide_eq_false hwait]
    simp only [Nat.cast_add, Nat.cast_one, Prod.mk.injEq, AlarmTask.mk.injEq, true_and, and_true]
    omega

namespace AlarmScheduler

/-- The slot `i` has had `k` signals since its task was registered. -/
structure Counting (s : AlarmScheduler) (i : Fin maxAlarmTasks) (intervalSec : Int)
    (func arg : Ptr) (k : Nat) : Prop where
  /-- The interval was accepted. -/
  pos : 0 < intervalSec
  /-- The time that is left, and the task. -/
  slot : s.tasks i = ⟨true, intervalSec, intervalSec - k % intervalSec, func, arg⟩
  /-- The task was handed over after each period. -/
  handed : callsOf i s.handed = List.replicate (k / intervalSec).toNat ⟨func, arg⟩

variable {s : AlarmScheduler} {i : Fin maxAlarmTasks} {intervalSec : Int} {func arg : Ptr} {k : Nat}

/-- A signal is counted. -/
theorem Counting.tick (h : s.Counting i intervalSec func arg k) :
    (s.step .tick).Counting i intervalSec func arg (k + 1) := by
  obtain ⟨n, rfl⟩ := Int.eq_ofNat_of_zero_le h.pos.le
  have hn : 0 < n := Int.natCast_pos.mp h.pos
  have htick := AlarmTask.tick_of_count hn k func arg
  have hslot : s.tasks i = ⟨true, n, n - (k % n : Nat), func, arg⟩ := h.slot
  rw [← hslot] at htick
  refine ⟨h.pos, ?_, ?_⟩
  · show s.tasks.handleSigalrm.2 i = _
    rw [AlarmTable.handleSigalrm_snd, htick]
    rfl
  · have hold : callsOf i s.handed = List.replicate (k / n) ⟨func, arg⟩ := h.handed
    show callsOf i (s.handed ++ s.tasks.handleSigalrm.1) = List.replicate ((k + 1) / n) _
    rw [callsOf_append, AlarmTable.callsOf_handleSigalrm, htick, hold, Nat.succ_div]
    simp only [decide_eq_true_eq]
    split
    next =>
      rw [hslot, List.replicate_succ']
      rfl
    next => rw [List.append_nil, Nat.add_zero]

/-- A registration does not change a slot that is in use. -/
theorem Counting.add (h : s.Counting i intervalSec func arg k) (intervalSec' : Int)
    (func' arg' : Ptr) :
    (s.step (.add intervalSec' func' arg')).Counting i intervalSec func arg k := by
  refine ⟨h.pos, ?_, h.handed⟩
  show (s.tasks.addTask intervalSec' func' arg').2 i = _
  have hcases := s.tasks.addTask_cases intervalSec' func' arg'
  generalize s.tasks.addTask intervalSec' func' arg' = found at hcases
  cases hcases with
  | refused => exact h.slot
  | @accepted j hpos hfree =>
      have hne : i ≠ j := by
        rintro rfl
        rw [h.slot] at hfree
        cases hfree
      exact (Function.update_of_ne hne _ _).trans h.slot

/-- Any events count as many signals as there are among them. -/
theorem Counting.foldl (h : s.Counting i intervalSec func arg k) (events : List AlarmEvent) :
    (events.foldl step s).Counting i intervalSec func arg (k + events.count .tick) := by
  induction events generalizing s k with
  | nil => exact h
  | cons event events ih =>
      cases event with
      | add intervalSec' func' arg' =>
          rw [List.count_cons_of_ne (by simp)]
          exact ih (h.add intervalSec' func' arg')
      | tick =>
          rw [List.count_cons_self, Nat.add_comm (List.count _ _), ← Nat.add_assoc]
          exact ih h.tick

/-! ## All slots -/

/-- The ids that were returned are those of the slots in use, and nothing was handed over
for another slot. -/
structure Inv (s : AlarmScheduler) : Prop where
  /-- The ids of the slots in use. -/
  mem_taskIds : ∀ i : Fin maxAlarmTasks, (i : Int) ∈ s.taskIds ↔ (s.tasks i).inUse = true
  /-- Every id is a slot. -/
  exists_slot : ∀ taskId ∈ s.taskIds, ∃ i : Fin maxAlarmTasks, taskId = i
  /-- No id was returned twice. -/
  nodup : s.taskIds.Nodup
  /-- Free slots have no task. -/
  handed : ∀ i, (s.tasks i).inUse = false → callsOf i s.handed = []

theorem inv_init : init.Inv where
  mem_taskIds := fun _ => iff_of_false List.not_mem_nil Bool.false_ne_true
  exists_slot := fun _ h => absurd h List.not_mem_nil
  nodup := List.nodup_nil
  handed := fun _ _ => rfl

/-- A free slot is given away. -/
theorem Inv.accept (h : s.Inv) {j : Fin maxAlarmTasks} (hfree : (s.tasks j).inUse = false)
    {task : AlarmTask} (htask : task.inUse = true) :
    Inv ⟨Function.update s.tasks j task, s.handed, s.taskIds ++ [(j : Int)]⟩ := by
  have hself : Function.update s.tasks j task j = task := Function.update_self _ _ _
  have hother : ∀ {i}, i ≠ j → Function.update s.tasks j task i = s.tasks i :=
    fun hne => Function.update_of_ne hne _ _
  have hnew : (j : Int) ∉ s.taskIds := by
    rw [h.mem_taskIds, hfree]
    exact Bool.false_ne_true
  refine ⟨fun i => ?_, fun taskId hid => ?_, ?_, fun i hi => ?_⟩
  · show _ ↔ (Function.update s.tasks j task i).inUse = true
    rw [List.mem_append, List.mem_singleton, h.mem_taskIds]
    rcases eq_or_ne i j with rfl | hne
    · rw [hself, htask]
      simp
    · rw [hother hne]
      simp [Fin.val_inj, hne]
  · rcases List.mem_append.mp hid with hold | hid
    · exact h.exists_slot taskId hold
    · exact ⟨j, List.mem_singleton.mp hid⟩
  · rw [← List.concat_eq_append]
    exact h.nodup.concat hnew
  · dsimp only at hi ⊢
    rcases eq_or_ne i j with rfl | hne
    · rw [hself, htask] at hi
      cases hi
    · rw [hother hne] at hi
      exact h.handed i hi

/-- A signal does not change which slots are in use. -/
theorem Inv.tick (h : s.Inv) : (s.step .tick).Inv := by
  have hsame : ∀ i, ((s.step .tick).tasks i).inUse = (s.tasks i).inUse := fun i => by
    show (s.tasks.handleSigalrm.2 i).inUse = _
    rw [AlarmTable.handleSigalrm_snd, AlarmTask.inUse_tick]
  refine ⟨fun i => ?_, h.exists_slot, h.nodup, fun i hi => ?_⟩
  · rw [hsame]
    exact h.mem_taskIds i
  · rw [hsame] at hi
    show callsOf i (s.handed ++ s.tasks.handleSigalrm.1) = []
    rw [callsOf_append, h.handed i hi, AlarmTable.callsOf_handleSigalrm,
      AlarmTask.tick_of_free hi]
    rfl

theorem Inv.step (h : s.Inv) (event : AlarmEvent) : (s.step event).Inv := by
  cases event with
  | tick => exact h.tick
  | add intervalSec func arg =>
      have hcases := s.tasks.addTask_cases intervalSec func arg
      simp only [AlarmScheduler.step]
      generalize s.tasks.addTask intervalSec func arg = found at hcases
      cases hcases with
      | refused => exact h
      | @accepted j hpos hfree =>
          dsimp only
          rw [if_pos (Int.natCast_nonneg _)]
          exact h.accept hfree rfl

theorem inv_run (events : List AlarmEvent) : (run events).Inv := by
  induction events using List.reverseRecOn with
  | nil => exact inv_init
  | append_singleton events event ih =>
      rw [run, List.foldl_append]
      exact ih.step event

/-- There are no more ids than slots. -/
theorem Inv.length_taskIds (h : s.Inv) : s.taskIds.length ≤ maxAlarmTasks := by
  have hsub : s.taskIds ⊆
      (List.finRange maxAlarmTasks).map fun i : Fin maxAlarmTasks => (i : Int) := by
    intro taskId hid
    obtain ⟨i, rfl⟩ := h.exists_slot taskId hid
    exact List.mem_map.mpr ⟨i, List.mem_finRange i, rfl⟩
  have hle := (List.subperm_of_subset h.nodup hsub).length_le
  rwa [List.length_map, List.length_finRange] at hle

/-- A registration that gets the slot `i` starts its count. -/
theorem Inv.counting_add (h : s.Inv) (hid : (s.tasks.addTask intervalSec func arg).1 = i) :
    (s.step (.add intervalSec func arg)).Counting i intervalSec func arg 0 := by
  have hcases := s.tasks.addTask_cases intervalSec func arg
  simp only [AlarmScheduler.step]
  generalize s.tasks.addTask intervalSec func arg = found at hcases hid
  cases hcases with
  | refused =>
      have hnonneg := Int.natCast_nonneg (i : Nat)
      dsimp only at hid
      omega
  | @accepted j hpos hfree =>
      have hij : j = i := Fin.ext (Int.natCast_inj.mp hid)
      subst hij
      refine ⟨hpos, ?_, ?_⟩
      · show Function.update s.tasks j _ j = _
        rw [Function.update_self]
        simp
      · show callsOf j s.handed = _
        rw [h.handed j hfree]
        simp

/-- The slots in use. -/
def live (s : AlarmScheduler) : Finset (Fin maxAlarmTasks) :=
  Finset.univ.filter fun i => (s.tasks i).inUse = true

/-- After any registrations and signals:  A task that was registered with an interval `n`,
and has had `k` signals since, was handed over `k / n` times and has `n - k % n` seconds
left.  No id was returned twice, the ids are the slots in use, and these are at most 16.
A registration changes no slot but its own, and one that is refused changes nothing. -/
theorem periodic_tasks (events : List AlarmEvent) :
    (∀ before after intervalSec func arg (i : Fin maxAlarmTasks),
      events = before ++ .add intervalSec func arg :: after →
      ((run before).tasks.addTask intervalSec func arg).1 = i →
        let k : Nat := after.count .tick
        (run events).tasks i =
            ⟨true, intervalSec, intervalSec - k % intervalSec, func, arg⟩ ∧
          callsOf i (run events).handed = List.replicate (k / intervalSec).toNat ⟨func, arg⟩) ∧
      ((run events).taskIds.Nodup ∧ (run events).taskIds.length ≤ 16 ∧
        ∀ i : Fin maxAlarmTasks, (i : Int) ∈ (run events).taskIds ↔ i ∈ (run events).live) ∧
      ∀ intervalSec func arg,
        (∀ i : Fin maxAlarmTasks, ((run events).tasks.addTask intervalSec func arg).1 ≠ i →
          ((run events).tasks.addTask intervalSec func arg).2 i = (run events).tasks i) ∧
        (((run events).tasks.addTask intervalSec func arg).1 = -1 →
          ((run events).tasks.addTask intervalSec func arg).2 = (run events).tasks) := by
  refine ⟨?_, ⟨(inv_run events).nodup, (inv_run events).length_taskIds, fun i => ?_⟩, ?_⟩
  · rintro before after intervalSec func arg i rfl hid
    have hcount := ((inv_run before).counting_add hid).foldl after
    rw [Nat.zero_add] at hcount
    rw [run, List.foldl_append, List.foldl_cons]
    exact ⟨hcount.slot, hcount.handed⟩
  · rw [(inv_run events).mem_taskIds, live, Finset.mem_filter]
    exact (and_iff_right (Finset.mem_univ i)).symm
  · intro intervalSec func arg
    have hcases := (run events).tasks.addTask_cases intervalSec func arg
    generalize (run events).tasks.addTask intervalSec func arg = found at hcases
    cases hcases with
    | refused => exact ⟨fun _ _ => rfl, fun _ => rfl⟩
    | @accepted j hpos hfree =>
        refine ⟨fun i hne => Function.update_of_ne ?_ _ _, fun hid => ?_⟩
        · rintro rfl
          exact hne rfl
        · have hnonneg := Int.natCast_nonneg (j : Nat)
          dsimp only at hid
          omega

end AlarmScheduler

end IotEdge
