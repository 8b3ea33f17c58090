import IotEdge.Lib.Machine
import IotEdge.Gateway.Blackboard

/-!
# The lock of the blackboard

Several processes use the blackboard: the gateway updates it, the workers of the
process pool read it.  `sem_lock` and `sem_unlock` are meant to keep them apart.
They are calls of `semop` on a System V semaphore that starts at 1.

`semop` on Linux can come back early from waiting, with `EINTR`, when the process
handles a signal, and it is never restarted.  `sem_lock` does not look at the
result, so its caller goes on to the table without the lock.

A label is one `semop`, one turn of a loop over the table, one write, or the end
of a process.  At the end of a process the kernel takes back what `SEM_UNDO`
noted.  `semctl` and the removal of the semaphore are left out.

`mutual_exclusion_iff` is the exact condition for mutual exclusion: no `sem_lock`
comes back early.  In such runs the calls are atomic (`board_eq_updateAll`).
-/

namespace IotEdge.SemLock

open Blackboard

/-- `SEMVMX`, the largest value of a semaphore. -/
def semvmx : Int := 32767

/-- What `semop` does with one operation. -/
inductive Semop where
  /-- It is done.  The new value, and the new adjustment of the process. -/
  | done (value semadj : Int)
  /-- The caller has to wait. -/
  | wait
  /-- It fails at once. -/
  | fail
deriving DecidableEq, Repr

/-- `semop` with `sem_op` other than 0 and `SEM_UNDO`. -/
def semop (value semadj semOp : Int) : Semop :=
  if value + semOp < 0 then .wait
  else if semvmx < value + semOp then .fail
  else if semadj - semOp < -semvmx - 1 ∨ semvmx < semadj - semOp then .fail
  else .done (value + semOp) (semadj - semOp)

/-- What the kernel does with the semaphore when a process ends. -/
def semExit (value semadj : Int) : Int := max 0 (min semvmx (value + semadj))

/-- A call on the blackboard. -/
inductive Call where
  | update (sensorId : UInt32) (data : Double)
  | read (sensorId : UInt32)
deriving DecidableEq, Repr

/-- Where a process is. -/
inductive Pc where
  /-- In no call. -/
  | idle
  /-- In the `semop` of `sem_lock`. -/
  | locking (call : Call)
  /-- In the loop of an update, at slot `i`. -/
  | updating (sensorId : UInt32) (data : Double) (i : Nat) (emptyIdx : Option Nat)
  /-- Behind that loop, with `write_idx`. -/
  | writing (sensorId : UInt32) (data : Double) (writeIdx : Option Nat)
  /-- In the loop of a read, at slot `i`. -/
  | reading (sensorId : UInt32) (i : Nat)
  /-- In `sem_unlock`.  A read has found its value. -/
  | unlocking (val : Option (UInt32 × Double))
  /-- The process has ended. -/
  | exited
deriving DecidableEq, Repr

/-- Between `sem_lock` and `sem_unlock`. -/
def Pc.inside : Pc → Bool
  | .idle | .locking _ | .exited => false
  | .updating .. | .writing .. | .reading .. | .unlocking _ => true

/-- Where a call goes on behind `sem_lock`. -/
def Call.enter : Call → Pc
  | .update sensorId data => .updating sensorId data 0 none
  | .read sensorId => .reading sensorId 0

/-- The semaphore, the processes `ι` and the table. -/
structure State (ι : Type) where
  /-- The value of the semaphore. -/
  value : Int
  /-- What the end of each process would add to it. -/
  semadj : ι → Int
  /-- Where each process is. -/
  procs : ι → Pc
  /-- `shared_mem`. -/
  board : Blackboard
  /-- The updates in the order of their writes. -/
  updates : List Update

/-- The labels. -/
inductive Action (ι : Type) where
  /-- A process makes a call. -/
  | call (p : ι) (call : Call)
  /-- The `semop` of `sem_lock` returns by itself. -/
  | lock (p : ι)
  /-- The `semop` of `sem_lock` waits, and a signal makes it return `EINTR`. -/
  | interrupt (p : ι)
  /-- One turn of the loop over the table. -/
  | look (p : ι)
  /-- The write of an update, at time `now`. -/
  | write (p : ι) (now : Int64)
  /-- The `semop` of `sem_unlock`. -/
  | unlock (p : ι)
  /-- The process ends. -/
  | exit (p : ι)

variable {ι : Type} [DecidableEq ι]

/-- A process moves to `pc`. -/
def State.goto (s : State ι) (p : ι) (pc : Pc) : State ι :=
  { s with procs := Function.update s.procs p pc }

/-- The semaphore and the adjustment of `p` change. -/
def State.setSem (s : State ι) (p : ι) (value semadj : Int) : State ι :=
  { s with value := value, semadj := Function.update s.semadj p semadj }

@[simp] theorem State.goto_self (s : State ι) (p : ι) (pc : Pc) : (s.goto p pc).procs p = pc :=
  Function.update_self ..

@[simp] theorem State.goto_of_ne (s : State ι) {p q : ι} (h : q ≠ p) (pc : Pc) :
    (s.goto p pc).procs q = s.procs q := Function.update_of_ne h ..

@[simp] theorem State.semadj_setSem_self (s : State ι) (p : ι) (value semadj : Int) :
    (s.setSem p value semadj).semadj p = semadj := Function.update_self ..

@[simp] theorem State.semadj_setSem_of_ne (s : State ι) {p q : ι} (h : q ≠ p)
    (value semadj : Int) : (s.setSem p value semadj).semadj q = s.semadj q :=
  Function.update_of_ne h ..

/-- The turn of a loop at `slot`; `none` behind the last one. -/
def Pc.look (slot : Option SharedSensorState) : Pc → Option Pc
  | .updating sensorId data i emptyIdx =>
      match slot with
      | none => some (.writing sensorId data emptyIdx)
      | some slot =>
          if slot.sensorId = sensorId then some (.writing sensorId data (some i))
          else if slot.sensorId = 0 ∧ emptyIdx = none then
            some (.updating sensorId data (i + 1) (some i))
          else some (.updating sensorId data (i + 1) emptyIdx)
  | .reading sensorId i =>
      match slot with
      | none => some (.unlocking (some (sensorId, invalidData)))
      | some slot =>
          if slot.sensorId = sensorId then
            some (.unlocking (some (sensorId, slot.latestData)))
          else some (.reading sensorId (i + 1))
  | _ => none

/-- The slot a loop is at. -/
def Pc.index : Pc → Nat
  | .updating _ _ i _ | .reading _ i => i
  | _ => 0

/-- The write of an update. -/
def writeSlot (b : Blackboard) (writeIdx : Option Nat) (entry : SharedSensorState) : Blackboard :=
  match writeIdx with
  | some i =>
      { slots := b.slots.set i entry
        length_slots := by rw [List.length_set, b.length_slots] }
  | none => b

/-- One step. -/
def step (s : State ι) : Action ι → Option (State ι)
  | .call p call => if s.procs p = .idle then some (s.goto p (.locking call)) else none
  | .lock p =>
      match s.procs p with
      | .locking call =>
          match semop s.value (s.semadj p) (-1) with
          | .done value semadj => some ((s.setSem p value semadj).goto p call.enter)
          | .wait => none
          | .fail => some (s.goto p call.enter)
      | _ => none
  | .interrupt p =>
      match s.procs p with
      | .locking call =>
          if semop s.value (s.semadj p) (-1) = .wait then some (s.goto p call.enter) else none
      | _ => none
  | .look p =>
      ((s.procs p).look (s.board.slots[(s.procs p).index]?)).map (s.goto p)
  | .write p now =>
      match s.procs p with
      | .writing sensorId data writeIdx =>
          some { s.goto p (.unlocking none) with
            board := writeSlot s.board writeIdx ⟨sensorId, data, now⟩
            updates := s.updates ++ [⟨sensorId, data, now⟩] }
      | _ => none
  | .unlock p =>
      match s.procs p with
      | .unlocking _ =>
          match semop s.value (s.semadj p) 1 with
          | .done value semadj => some ((s.setSem p value semadj).goto p .idle)
          | .wait | .fail => some (s.goto p .idle)
      | _ => none
  | .exit p =>
      if s.procs p = .exited then none
      else some ((s.setSem p (semExit s.value (s.semadj p)) 0).goto p .exited)

/-- After `init_system_v_ipc`. -/
def start (ι : Type) : State ι where
  value := 1
  semadj := fun _ => 0
  procs := fun _ => .idle
  board := .zeroed
  updates := []

/-- The processes `ι` on one blackboard. -/
def machine (ι : Type) [DecidableEq ι] : Machine (State ι) (Action ι) := ⟨start ι, step⟩

/-! ## The transitions -/

/-- The transitions of `step`, one constructor for each outcome. -/
inductive Step (s : State ι) : Action ι → State ι → Prop where
  | called {p : ι} {call : Call} :
      s.procs p = .idle → Step s (.call p call) (s.goto p (.locking call))
  | locked {p : ι} {call : Call} {value semadj : Int} :
      s.procs p = .locking call → semop s.value (s.semadj p) (-1) = .done value semadj →
      Step s (.lock p) ((s.setSem p value semadj).goto p call.enter)
  | lockFailed {p : ι} {call : Call} :
      s.procs p = .locking call → semop s.value (s.semadj p) (-1) = .fail →
      Step s (.lock p) (s.goto p call.enter)
  | interrupted {p : ι} {call : Call} :
      s.procs p = .locking call → semop s.value (s.semadj p) (-1) = .wait →
      Step s (.interrupt p) (s.goto p call.enter)
  | looked {p : ι} {pc : Pc} :
      (s.procs p).look (s.board.slots[(s.procs p).index]?) = some pc →
      Step s (.look p) (s.goto p pc)
  | wrote {p : ι} {now : Int64} {sensorId : UInt32} {data : Double} {writeIdx : Option Nat} :
      s.procs p = .writing sensorId data writeIdx →
      Step s (.write p now) { s.goto p (.unlocking none) with
        board := writeSlot s.board writeIdx ⟨sensorId, data, now⟩
        updates := s.updates ++ [⟨sensorId, data, now⟩] }
  | unlocked {p : ι} {val : Option (UInt32 × Double)} {value semadj : Int} :
      s.procs p = .unlocking val → semop s.value (s.semadj p) 1 = .done value semadj →
      Step s (.unlock p) ((s.setSem p value semadj).goto p .idle)
  | unlockFailed {p : ι} {val : Option (UInt32 × Double)} :
      s.procs p = .unlocking val → (∀ v a, semop s.value (s.semadj p) 1 ≠ .done v a) →
      Step s (.unlock p) (s.goto p .idle)
  | exited {p : ι} :
      s.procs p ≠ .exited →
      Step s (.exit p) ((s.setSem p (semExit s.value (s.semadj p)) 0).goto p .exited)

/-- Every step is one of the transitions. -/
theorem step_cases {s s' : State ι} {a : Action ι} (h : step s a = some s') : Step s a s' := by
  cases a with
  | call p call =>
      simp only [step] at h
      split at h
      next hpc => cases h; exact .called hpc
      next => cases h
  | lock p =>
      simp only [step] at h
      split at h
      next hpc =>
        split at h
        next hdone => cases h; exact .locked hpc hdone
        next => cases h
        next hfail => cases h; exact .lockFailed hpc hfail
      next => cases h
  | interrupt p =>
      simp only [step] at h
      split at h
      next hpc =>
        split at h
        next hwait => cases h; exact .interrupted hpc hwait
        next => cases h
      next => cases h
  | look p =>
      obtain ⟨pc, hpc, hs'⟩ := Option.map_eq_some_iff.mp h
      subst hs'
      exact .looked hpc
  | write p now =>
      simp only [step] at h
      split at h
      next hpc => cases h; exact .wrote hpc
      next => cases h
  | unlock p =>
      simp only [step] at h
      split at h
      next hpc =>
        split at h
        next hdone => cases h; exact .unlocked hpc hdone
        next hwait => cases h; exact .unlockFailed hpc fun v a hd => by rw [hwait] at hd; cases hd
        next hfail => cases h; exact .unlockFailed hpc fun v a hd => by rw [hfail] at hd; cases hd
      next => cases h
  | exit p =>
      simp only [step] at h
      split at h
      next => cases h
      next hpc => cases h; exact .exited hpc

/-! ## Who has the semaphore -/

/-- The semaphore is at most 1, and at most one process is between `sem_lock` and
`sem_unlock`. -/
def Exclusive (s : State ι) : Prop :=
  s.value ≤ 1 ∧ ∀ p q, (s.procs p).inside = true → (s.procs q).inside = true → p = q

/-- `holder` has the semaphore, or nobody has. -/
structure Held (s : State ι) (holder : Option ι) : Prop where
  /-- The semaphore is free when nobody has it. -/
  value : s.value = if holder = none then 1 else 0
  /-- The end of the holder would give it back. -/
  semadj : ∀ p, s.semadj p = if holder = some p then 1 else 0
  /-- The holder is the one process inside. -/
  inside : ∀ p, (s.procs p).inside = true ↔ holder = some p

theorem Held.exclusive {s : State ι} {holder : Option ι} (h : Held s holder) : Exclusive s := by
  constructor
  · rw [h.value]
    split <;> decide
  · intro p q hp hq
    exact Option.some.inj (((h.inside p).mp hp).symm.trans ((h.inside q).mp hq))

theorem held_start : Held (start ι) none where
  value := rfl
  semadj := fun _ => rfl
  inside := fun _ => by simp [start, Pc.inside]

/-- A turn of a loop stays inside. -/
theorem Pc.look_inside {slot : Option SharedSensorState} {pc pc' : Pc}
    (h : pc.look slot = some pc') : pc.inside = true ∧ pc'.inside = true := by
  cases pc with
  | updating sensorId data i emptyIdx =>
      refine ⟨rfl, ?_⟩
      simp only [look] at h
      split at h
      next => cases h; rfl
      next => split at h <;> [skip; split at h] <;> cases h <;> rfl
  | reading sensorId i =>
      refine ⟨rfl, ?_⟩
      simp only [look] at h
      split at h
      next => cases h; rfl
      next => split at h <;> cases h <;> rfl
  | _ => cases h

/-- A move that neither enters nor leaves. -/
theorem Held.goto {s : State ι} {holder : Option ι} (h : Held s holder) {p : ι} {pc : Pc}
    (hpc : pc.inside = (s.procs p).inside) : Held (s.goto p pc) holder where
  value := h.value
  semadj := h.semadj
  inside := fun q => by
    by_cases hq : q = p
    · subst hq
      rw [State.goto_self, hpc]
      exact h.inside q
    · rw [State.goto_of_ne s hq]
      exact h.inside q

/-- Who does not hold the semaphore has nothing to give back. -/
theorem Held.semadj_eq_zero {s : State ι} {holder : Option ι} (h : Held s holder) {q : ι}
    (hq : holder ≠ some q) : s.semadj q = 0 := by
  rw [h.semadj, if_neg hq]

/-- One process changes the semaphore, for itself only. -/
theorem Held.setSem {s : State ι} {holder holder' : Option ι} (h : Held s holder) {p : ι}
    {value semadj : Int} {pc : Pc} (hvalue : value = if holder' = none then 1 else 0)
    (hsemadj : semadj = if holder' = some p then 1 else 0)
    (hpc : pc.inside = true ↔ holder' = some p)
    (hothers : ∀ q, q ≠ p → holder ≠ some q ∧ holder' ≠ some q) :
    Held ((s.setSem p value semadj).goto p pc) holder' where
  value := hvalue
  semadj := fun q => by
    show (s.setSem p value semadj).semadj q = _
    by_cases hq : q = p
    · subst hq
      rw [State.semadj_setSem_self, hsemadj]
    · rw [State.semadj_setSem_of_ne s hq, h.semadj_eq_zero (hothers q hq).1,
        if_neg (hothers q hq).2]
  inside := fun q => by
    by_cases hq : q = p
    · subst hq
      rw [State.goto_self]
      exact hpc
    · rw [State.goto_of_ne _ hq]
      exact (h.inside q).trans (iff_of_false (hothers q hq).1 (hothers q hq).2)

/-- A process takes the free semaphore. -/
theorem Held.take {s : State ι} (h : Held s none) {p : ι} {pc : Pc} (hpc : pc.inside = true) :
    Held ((s.setSem p 0 1).goto p pc) (some p) :=
  h.setSem rfl (if_pos rfl).symm (iff_of_true hpc rfl) fun _ hq =>
    ⟨by simp, fun heq => hq (Option.some.inj heq).symm⟩

/-- The holder gives the semaphore back. -/
theorem Held.release {s : State ι} {p : ι} (h : Held s (some p)) {pc : Pc}
    (hpc : pc.inside = false) : Held ((s.setSem p 1 0).goto p pc) none :=
  h.setSem rfl rfl (iff_of_false (by simp [hpc]) (by simp)) fun _ hq =>
    ⟨fun heq => hq (Option.some.inj heq).symm, by simp⟩

/-- A process that ends gives back what it has taken. -/
theorem Held.exit {s : State ι} {holder : Option ι} (h : Held s holder) {p : ι} :
    ∃ holder',
      Held ((s.setSem p (semExit s.value (s.semadj p)) 0).goto p .exited) holder' := by
  rcases eq_or_ne holder (some p) with rfl | hholder
  · have hback : semExit s.value (s.semadj p) = 1 := by
      rw [h.semadj, if_pos rfl, h.value]
      rfl
    rw [hback]
    exact ⟨none, h.release rfl⟩
  · have hsame : semExit s.value (s.semadj p) = s.value := by
      rw [h.semadj_eq_zero hholder, h.value]
      split <;> rfl
    have hset : s.setSem p s.value 0 = s := by
      rw [State.setSem, ← h.semadj_eq_zero hholder, Function.update_eq_self]
    have hout : (s.procs p).inside = false := by
      rw [← Bool.not_eq_true, h.inside]
      exact hholder
    rw [hsame, hset]
    exact ⟨holder, h.goto hout.symm⟩

/-- A process that is outside does not have the semaphore. -/
theorem Held.ne_of_outside {s : State ι} {holder : Option ι} (h : Held s holder) {p : ι}
    (hp : (s.procs p).inside = false) : holder ≠ some p := by
  intro heq
  rw [(h.inside p).mpr heq] at hp
  cases hp

/-- The `semop` of `sem_lock`: it takes a free semaphore and waits for another. -/
theorem Held.semop_lock {s : State ι} {holder : Option ι} (h : Held s holder) {p : ι}
    (hp : (s.procs p).inside = false) :
    semop s.value (s.semadj p) (-1) = if holder = none then .done 0 1 else .wait := by
  rw [h.semadj_eq_zero (h.ne_of_outside hp), h.value]
  split <;> rfl

/-- The `semop` of `sem_unlock` of the holder. -/
theorem Held.semop_unlock {s : State ι} {p : ι} (h : Held s (some p)) :
    semop s.value (s.semadj p) 1 = .done 1 0 := by
  rw [h.semadj, if_pos rfl, h.value]
  rfl

/-! ## Mutual exclusion -/

/-- The label is not a `sem_lock` that comes back early. -/
def Action.Completes : Action ι → Prop
  | .interrupt _ => False
  | _ => True

/-- Without an early return the semaphore stays with at most one holder, the
process inside. -/
theorem Held.step {s s' : State ι} {holder : Option ι} {a : Action ι} (h : Held s holder)
    (hs : Step s a s') (ha : a.Completes) : ∃ holder', Held s' holder' := by
  cases hs with
  | called hpc => exact ⟨holder, h.goto (by rw [hpc]; rfl)⟩
  | @locked p call value semadj hpc hdone =>
      rw [h.semop_lock (by rw [hpc]; rfl)] at hdone
      split at hdone
      next hfree =>
        cases hdone
        subst hfree
        exact ⟨some p, h.take (by cases call <;> rfl)⟩
      next => cases hdone
  | lockFailed hpc hfail =>
      rw [h.semop_lock (by rw [hpc]; rfl)] at hfail
      split at hfail <;> cases hfail
  | interrupted _ _ => exact ha.elim
  | looked hlook =>
      obtain ⟨hin, hin'⟩ := Pc.look_inside hlook
      exact ⟨holder, h.goto (hin'.trans hin.symm)⟩
  | @wrote p now sensorId data writeIdx hpc =>
      have hin : (Pc.unlocking none).inside = (s.procs p).inside := by rw [hpc]; rfl
      have hgoto := h.goto hin
      exact ⟨holder, hgoto.value, hgoto.semadj, hgoto.inside⟩
  | @unlocked p val value semadj hpc hdone =>
      have hholder : holder = some p := (h.inside p).mp (by rw [hpc]; rfl)
      subst hholder
      rw [h.semop_unlock] at hdone
      cases hdone
      exact ⟨none, h.release rfl⟩
  | @unlockFailed p val hpc hfail =>
      have hholder : holder = some p := (h.inside p).mp (by rw [hpc]; rfl)
      subst hholder
      exact absurd h.semop_unlock (hfail 1 0)
  | exited => exact h.exit

/-- A `sem_lock` that comes back early puts a second process inside. -/
theorem Held.not_exclusive {s s' : State ι} {holder : Option ι} {a : Action ι} (h : Held s holder)
    (hs : Step s a s') (ha : ¬ a.Completes) : ¬ Exclusive s' := by
  cases hs with
  | @interrupted p call hpc hwait =>
      have hout : (s.procs p).inside = false := by rw [hpc]; rfl
      rw [h.semop_lock hout] at hwait
      split at hwait
      next => cases hwait
      next hbusy =>
        obtain ⟨q, hq⟩ := Option.ne_none_iff_exists'.mp hbusy
        have hne : q ≠ p := fun heq => h.ne_of_outside hout (heq ▸ hq)
        intro hex
        refine hne (hex.2 q p ?_ ?_)
        · rw [State.goto_of_ne s hne]
          exact (h.inside q).mpr hq
        · rw [State.goto_self]
          cases call <;> rfl
  | _ => exact absurd trivial ha

/-- Along any run, the semaphore is at most 1 and at most one process is inside
just when no `sem_lock` comes back early. -/
theorem mutual_exclusion_iff {as : List (Action ι)} {s : State ι}
    (hrun : (machine ι).run as = some s) :
    (machine ι).Always as Exclusive ↔ (machine ι).EachStep as fun _ a => a.Completes :=
  Machine.always_iff_eachStep_of_invariant (I := fun s => ∃ holder, Held s holder)
    ⟨none, held_start⟩ (fun ⟨_, h⟩ => h.exclusive)
    (fun ⟨_, h⟩ hs ha => h.step (step_cases hs) ha)
    (fun ⟨_, h⟩ hs ha => h.not_exclusive (step_cases hs) ha) hrun

/-- A worker reads, the gateway updates and waits, and its alarm signal comes.
The worker is `false`, the gateway `true`. -/
def signalWhileWaiting : List (Action Bool) :=
  [.call false (.read 16790), .lock false, .call true (.update 16790 ⟨0⟩), .interrupt true]

/-- Both are inside then. -/
theorem two_inside : ¬ ∀ s, (machine Bool).Reachable s → Exclusive s := by
  intro h
  have hrun : ((machine Bool).run signalWhileWaiting).map (fun s =>
      ((s.procs false).inside, (s.procs true).inside)) = some (true, true) := by decide
  obtain ⟨s, hs, heq⟩ := Option.map_eq_some_iff.mp hrun
  obtain ⟨h0, h1⟩ := Prod.mk.injEq .. ▸ heq
  exact absurd ((h s ⟨_, hs⟩).2 false true h0 h1) (by decide)

/-- Up to the signal the two exclude each other. -/
theorem mutual_exclusion_iff_waiting : (machine Bool).Always
    (signalWhileWaiting.take 3) Exclusive := by
  obtain ⟨s, hs⟩ := Option.isSome_iff_exists.mp
    (show ((machine Bool).run (signalWhileWaiting.take 3)).isSome by decide)
  refine (mutual_exclusion_iff hs).mpr fun pre a hpre t _ => ?_
  have hmem : a ∈ signalWhileWaiting.take 3 := hpre.subset (by simp)
  simp only [signalWhileWaiting, List.take, List.mem_cons, List.not_mem_nil, or_false] at hmem
  rcases hmem with rfl | rfl | rfl <;> trivial

/-! ## Atomicity -/

/-- What the loops have found agrees with the table. -/
def Pc.Sound (b : Blackboard) : Pc → Prop
  | .updating sensorId _ i emptyIdx =>
      scan sensorId (b.slots.drop i) i emptyIdx = scan sensorId b.slots 0 none
  | .writing sensorId _ writeIdx =>
      (scan sensorId b.slots 0 none).1.or (scan sensorId b.slots 0 none).2 = writeIdx
  | .reading sensorId i => readFrom sensorId (b.slots.drop i) = b.readSharedSensorData sensorId
  | .unlocking (some (sensorId, val)) => b.readSharedSensorData sensorId = val
  | _ => True

theorem Pc.sound_of_outside {pc : Pc} (h : pc.inside = false) (b : Blackboard) : pc.Sound b := by
  cases pc with
  | idle | locking _ | exited => trivial
  | _ => cases h

theorem Pc.sound_enter (call : Call) (b : Blackboard) : call.enter.Sound b := by
  cases call with
  | update sensorId data => rfl
  | read sensorId => rfl

/-- A turn of the loop of an update is a turn of `scan`. -/
theorem Pc.Sound.look_updating {b : Blackboard} {sensorId : UInt32} {data : Double} {i : Nat}
    {emptyIdx : Option Nat} {pc' : Pc} (h : (Pc.updating sensorId data i emptyIdx).Sound b)
    (hlook : (Pc.updating sensorId data i emptyIdx).look b.slots[i]? = some pc') :
    pc'.Sound b := by
  rw [Sound] at h
  simp only [Pc.look] at hlook
  split at hlook
  next hend =>
    cases hlook
    rw [List.drop_eq_nil_of_le (List.getElem?_eq_none_iff.mp hend), scan] at h
    rw [Sound, ← h, Option.none_or]
  next slot hslot =>
    obtain ⟨hlt, hget⟩ := List.getElem?_eq_some_iff.mp hslot
    rw [List.drop_eq_getElem_cons hlt, hget, scan] at h
    split at hlook
    next heq =>
      cases hlook
      rw [if_pos heq] at h
      rw [Sound, ← h, Option.some_or]
    next hne =>
      rw [if_neg hne] at h
      split at hlook
      next hfree =>
        cases hlook
        rwa [if_pos hfree] at h
      next hkeep =>
        cases hlook
        rwa [if_neg hkeep] at h

/-- A turn of the loop of a read is a turn of `readFrom`. -/
theorem Pc.Sound.look_reading {b : Blackboard} {sensorId : UInt32} {i : Nat} {pc' : Pc}
    (h : (Pc.reading sensorId i).Sound b)
    (hlook : (Pc.reading sensorId i).look b.slots[i]? = some pc') : pc'.Sound b := by
  rw [Sound] at h
  simp only [Pc.look] at hlook
  split at hlook
  next hend =>
    cases hlook
    rw [List.drop_eq_nil_of_le (List.getElem?_eq_none_iff.mp hend), readFrom] at h
    exact h.symm
  next slot hslot =>
    obtain ⟨hlt, hget⟩ := List.getElem?_eq_some_iff.mp hslot
    rw [List.drop_eq_getElem_cons hlt, hget, readFrom] at h
    split at hlook
    next heq =>
      cases hlook
      rw [if_pos heq] at h
      exact h.symm
    next hne =>
      cases hlook
      rwa [if_neg hne] at h

/-- A turn of a loop keeps what the loop has found. -/
theorem Pc.Sound.look {b : Blackboard} {pc pc' : Pc} (h : pc.Sound b)
    (hlook : pc.look b.slots[pc.index]? = some pc') : pc'.Sound b := by
  cases pc with
  | updating => exact h.look_updating hlook
  | reading => exact h.look_reading hlook
  | _ => cases hlook

/-- The write of an update that has found its slot is the whole update. -/
theorem writeSlot_eq {b : Blackboard} {sensorId : UInt32} {data : Double} {writeIdx : Option Nat}
    (h : (Pc.writing sensorId data writeIdx).Sound b) (now : Int64) :
    writeSlot b writeIdx ⟨sensorId, data, now⟩ = b.updateSharedSensorData sensorId data now := by
  subst h
  rfl

/-- Every call so far was atomic. -/
structure Atomic (s : State ι) : Prop where
  /-- The table is what the updates make of it, one after the other. -/
  board : s.board = zeroed.updateAll s.updates
  /-- What the calls in progress have found holds of the table. -/
  sound : ∀ p, (s.procs p).Sound s.board

omit [DecidableEq ι] in
theorem atomic_start : Atomic (start ι) := ⟨rfl, fun _ => trivial⟩

theorem Atomic.goto {s : State ι} (h : Atomic s) {p : ι} {pc : Pc} (hpc : pc.Sound s.board) :
    Atomic (s.goto p pc) where
  board := h.board
  sound := fun q => by
    by_cases hq : q = p
    · subst hq
      rw [State.goto_self]
      exact hpc
    · rw [State.goto_of_ne s hq]
      exact h.sound q

theorem Atomic.setSem {s : State ι} (h : Atomic s) (p : ι) (value semadj : Int) :
    Atomic (s.setSem p value semadj) := ⟨h.board, h.sound⟩

/-- Under mutual exclusion a step keeps the calls atomic. -/
theorem Atomic.step {s s' : State ι} {holder : Option ι} {a : Action ι} (hheld : Held s holder)
    (h : Atomic s) (hs : Step s a s') : Atomic s' := by
  cases hs with
  | called _ => exact h.goto trivial
  | locked _ _ => exact (h.setSem _ _ _).goto (Pc.sound_enter _ _)
  | lockFailed _ _ => exact h.goto (Pc.sound_enter _ _)
  | interrupted _ _ => exact h.goto (Pc.sound_enter _ _)
  | looked hlook => exact h.goto ((h.sound _).look hlook)
  | @wrote p now sensorId data writeIdx hpc =>
      have hwrite := writeSlot_eq (hpc ▸ h.sound p) now
      refine ⟨?_, fun q => ?_⟩
      · rw [hwrite, h.board]
        simp [updateAll]
      · show ((s.goto p (.unlocking none)).procs q).Sound _
        by_cases hq : q = p
        · subst hq
          rw [State.goto_self]
          trivial
        · rw [State.goto_of_ne s hq]
          have hp : (s.procs p).inside = true := by rw [hpc]; rfl
          refine Pc.sound_of_outside (Bool.not_eq_true _ ▸ fun hin => hq ?_) _
          exact hheld.exclusive.2 q p hin hp
  | unlocked _ _ => exact (h.setSem _ _ _).goto trivial
  | unlockFailed _ _ => exact h.goto trivial
  | exited _ => exact (h.setSem _ _ _).goto trivial

/-- Without an early return, the table is always what the updates make of it one
after the other, and a read returns what the table holds. -/
theorem board_eq_updateAll {as : List (Action ι)} {s : State ι}
    (hrun : (machine ι).run as = some s)
    (has : (machine ι).EachStep as fun _ a => a.Completes) :
    s.board = zeroed.updateAll s.updates ∧
      ∀ p sensorId val, s.procs p = .unlocking (some (sensorId, val)) →
        s.board.readSharedSensorData sensorId = val := by
  have h := Machine.always_of_eachStep (I := fun s => (∃ holder, Held s holder) ∧ Atomic s)
    ⟨⟨none, held_start⟩, atomic_start⟩
    (fun ⟨⟨_, hheld⟩, h⟩ hs ha =>
      ⟨hheld.step (step_cases hs) ha, Atomic.step hheld h (step_cases hs)⟩) hrun has
  obtain ⟨-, hatomic⟩ := h as (List.prefix_refl _) s hrun
  refine ⟨hatomic.board, fun p sensorId val hpc => ?_⟩
  have hsound := hatomic.sound p
  rw [hpc] at hsound
  exact hsound

end IotEdge.SemLock
