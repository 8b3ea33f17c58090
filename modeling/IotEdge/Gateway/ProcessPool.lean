import Mathlib
import IotEdge.Lib.Machine
import IotEdge.Lib.LineStream

/-!
# The process pool

The gateway hands commands to its worker processes through one FIFO.
`process_pool_submit_task` writes a command and a line feed.  Every worker reads
up to 255 bytes, cuts them at the first line end, and executes what is left.  A
read takes whatever is there, so it may get several commands or a part of one,
and what it does not execute is gone.

The kernel writes up to `PIPE_BUF` bytes in one piece.  The workers run until
`process_pool_destroy`, which is left out: the write end stays open and a read
does not return `0`.  A read that a signal interrupts is made again.

`executed_iff_whole_reads` is the exact condition for every command to be
executed exactly once.
-/

namespace IotEdge.ProcessPool

/-- `'\n'`. -/
abbrev lf : UInt8 := 10

/-- `'\r'`. -/
abbrev cr : UInt8 := 13

/-- The size of `buf`. -/
abbrev bufSize : Nat := 256

/-- A task command. -/
abbrev Command := List UInt8

/-- What `process_pool_submit_task` writes: `snprintf` cuts at the size of `buf`,
and a C string ends at the first zero. -/
def submitBuf (taskCmd : Command) : List UInt8 :=
  (taskCmd.takeWhile (· ≠ 0) ++ [lf]).take (bufSize - 1)

/-- What a worker executes of the bytes it has read: `buf[n] = '\0'` and then
`buf[strcspn(buf, "\r\n")] = 0`. -/
def commandOf (chunk : List UInt8) : Command :=
  chunk.takeWhile fun b => b ≠ 0 ∧ b ≠ cr ∧ b ≠ lf

/-- Where a worker is. -/
inductive WorkerPc where
  /-- In `read`. -/
  | reading
  /-- With a command to execute. -/
  | executing (cmd : Command)
deriving DecidableEq, Repr

/-- The FIFO and its workers `ι`. -/
structure State (ι : Type) where
  /-- The bytes in the FIFO. -/
  fifo : List UInt8
  /-- Where each worker is. -/
  workers : ι → WorkerPc
  /-- The commands of the calls that returned `0`, in order. -/
  submitted : List Command
  /-- What the reads returned, in order. -/
  chunks : List (List UInt8)
  /-- The commands executed, in order. -/
  executed : List Command

/-- The labels. -/
inductive Action (ι : Type) where
  /-- `process_pool_submit_task`, and whether its `write` succeeds. -/
  | submit (taskCmd : Command) (ok : Bool)
  /-- A worker reads `n` bytes. -/
  | read (w : ι) (n : Nat)
  /-- A worker executes its command. -/
  | execute (w : ι)
deriving DecidableEq

variable {ι : Type} [DecidableEq ι]

/-- One step. -/
def step (s : State ι) : Action ι → Option (State ι)
  | .submit taskCmd ok =>
      if ok then some { s with
        fifo := s.fifo ++ submitBuf taskCmd
        submitted := s.submitted ++ [taskCmd] }
      else some s
  | .read w n =>
      if s.workers w = .reading ∧ 0 < n ∧ n ≤ bufSize - 1 ∧ n ≤ s.fifo.length then
        some { s with
          fifo := s.fifo.drop n
          workers := Function.update s.workers w (.executing (commandOf (s.fifo.take n)))
          chunks := s.chunks ++ [s.fifo.take n] }
      else none
  | .execute w =>
      match s.workers w with
      | .executing cmd => some { s with
          workers := Function.update s.workers w .reading
          executed := s.executed ++ [cmd] }
      | .reading => none

/-- After `process_pool_init`. -/
def start (ι : Type) : State ι where
  fifo := []
  workers := fun _ => .reading
  submitted := []
  chunks := []
  executed := []

/-- A pool with the workers `ι`. -/
def machine (ι : Type) [DecidableEq ι] : Machine (State ι) (Action ι) := ⟨start ι, step⟩

/-- The transitions of `step`, one constructor for each outcome. -/
inductive Step (s : State ι) : Action ι → State ι → Prop where
  | submitted {taskCmd : Command} :
      Step s (.submit taskCmd true) { s with
        fifo := s.fifo ++ submitBuf taskCmd
        submitted := s.submitted ++ [taskCmd] }
  | refused {taskCmd : Command} : Step s (.submit taskCmd false) s
  | read {w : ι} {n : Nat} :
      s.workers w = .reading → 0 < n →
      Step s (.read w n) { s with
        fifo := s.fifo.drop n
        workers := Function.update s.workers w (.executing (commandOf (s.fifo.take n)))
        chunks := s.chunks ++ [s.fifo.take n] }
  | executed {w : ι} {cmd : Command} :
      s.workers w = .executing cmd →
      Step s (.execute w) { s with
        workers := Function.update s.workers w .reading
        executed := s.executed ++ [cmd] }

/-- Every step is one of the transitions. -/
theorem step_cases {s s' : State ι} {a : Action ι} (h : step s a = some s') : Step s a s' := by
  cases a with
  | submit taskCmd ok =>
      cases ok with
      | true => cases h; exact .submitted
      | false => cases h; exact .refused
  | read w n =>
      simp only [step] at h
      split at h
      next hread => cases h; exact .read hread.1 hread.2.1
      next => cases h
  | execute w =>
      simp only [step] at h
      split at h
      next hw => cases h; exact .executed hw
      next => cases h

/-! ## Commands and chunks -/

/-- A command as the callers use it. -/
structure GoodCommand (cmd : Command) : Prop where
  /-- It is not empty. -/
  ne_nil : cmd ≠ []
  /-- It fits into `buf` with its line feed. -/
  length_le : cmd.length ≤ 254
  /-- It is a C string of one line. -/
  bytes : ∀ b ∈ cmd, b ≠ 0 ∧ b ≠ cr ∧ b ≠ lf

theorem GoodCommand.submitBuf {cmd : Command} (h : GoodCommand cmd) :
    submitBuf cmd = cmd ++ [lf] := by
  have hstring : cmd.takeWhile (· ≠ 0) = cmd :=
    List.takeWhile_eq_self_iff.mpr fun b hb => decide_eq_true (h.bytes b hb).1
  rw [ProcessPool.submitBuf, hstring, List.take_of_length_le]
  rw [List.length_append, List.length_singleton]
  exact Nat.succ_le_succ h.length_le

theorem GoodCommand.lf_not_mem {cmd : Command} (h : GoodCommand cmd) : lf ∉ cmd :=
  fun hmem => (h.bytes lf hmem).2.2 rfl

/-- In a stream of commands the line feed is the only line end. -/
theorem ne_of_mem_stream {lines : List Command} (h : ∀ cmd ∈ lines, GoodCommand cmd) {b : UInt8}
    (hb : b ∈ LineStream.stream lf lines) : b ≠ 0 ∧ b ≠ cr := by
  obtain ⟨line, hline, hb⟩ := List.mem_flatten.mp hb
  obtain ⟨cmd, hcmd, rfl⟩ := List.mem_map.mp hline
  rcases List.mem_append.mp hb with hb | hb
  · exact ⟨((h cmd hcmd).bytes b hb).1, ((h cmd hcmd).bytes b hb).2.1⟩
  · rw [List.mem_singleton.mp hb]
    decide

theorem commandOf_eq {chunk : List UInt8} (h : ∀ b ∈ chunk, b ≠ 0 ∧ b ≠ cr) :
    commandOf chunk = LineStream.command lf chunk := by
  rw [commandOf, LineStream.command]
  induction chunk with
  | nil => rfl
  | cons b chunk ih =>
      rw [List.forall_mem_cons] at h
      rw [List.takeWhile_cons, List.takeWhile_cons, ih h.2]
      simp [h.1]

/-! ## What becomes of the commands -/

variable [Fintype ι]

/-- The command a worker has read and not executed. -/
def WorkerPc.pending : WorkerPc → Multiset Command
  | .reading => 0
  | .executing cmd => {cmd}

/-- The commands in the hands of the workers. -/
def pendingCommands (workers : ι → WorkerPc) : Multiset Command := ∑ w, (workers w).pending

/-- A worker moves. -/
theorem pendingCommands_update (workers : ι → WorkerPc) (w : ι) (pc : WorkerPc) :
    pendingCommands (Function.update workers w pc) + (workers w).pending =
      pendingCommands workers + pc.pending := by
  have hrest : ∑ v ∈ Finset.univ.erase w, (Function.update workers w pc v).pending =
      ∑ v ∈ Finset.univ.erase w, (workers v).pending :=
    Finset.sum_congr rfl fun v hv => by rw [Function.update_of_ne (Finset.ne_of_mem_erase hv)]
  rw [pendingCommands, pendingCommands, ← Finset.add_sum_erase _ _ (Finset.mem_univ w), hrest,
    ← Finset.add_sum_erase Finset.univ (fun v => (workers v).pending) (Finset.mem_univ w),
    Function.update_self]
  abel

/-- Every byte that was written is in a chunk or in the FIFO, and every chunk was
executed or is in the hands of a worker. -/
structure Ledger (s : State ι) : Prop where
  /-- The commands are as the callers use them. -/
  good : ∀ cmd ∈ s.submitted, GoodCommand cmd
  /-- The chunks and the FIFO make up the stream. -/
  joined : s.chunks.flatten ++ s.fifo = LineStream.stream lf s.submitted
  /-- What became of the chunks. -/
  commands : (s.executed : Multiset Command) + pendingCommands s.workers =
    (s.chunks.map commandOf : Multiset Command)

omit [DecidableEq ι] in
theorem ledger_start : Ledger (start ι) where
  good := by simp [start]
  joined := rfl
  commands := by simp [start, pendingCommands, WorkerPc.pending]

/-- The label submits a command as the callers use it, or none. -/
def GoodSubmit : Action ι → Prop
  | .submit taskCmd true => GoodCommand taskCmd
  | _ => True

theorem Ledger.step {s s' : State ι} {a : Action ι} (h : Ledger s) (hs : Step s a s')
    (ha : GoodSubmit a) : Ledger s' := by
  cases hs with
  | @submitted taskCmd =>
      have hcmd : GoodCommand taskCmd := ha
      refine ⟨fun cmd hmem => ?_, ?_, h.commands⟩
      · rcases List.mem_append.mp hmem with hmem | hmem
        · exact h.good cmd hmem
        · rw [List.mem_singleton.mp hmem]
          exact hcmd
      · rw [hcmd.submitBuf, ← List.append_assoc, h.joined, LineStream.stream_append]
        simp
  | refused => exact h
  | @read w n hw _ =>
      refine ⟨h.good, ?_, ?_⟩
      · rw [← h.joined]
        simp
      · have hpending := pendingCommands_update s.workers w (.executing (commandOf (s.fifo.take n)))
        rw [hw] at hpending
        simp only [WorkerPc.pending, add_zero] at hpending
        show (s.executed : Multiset Command) + pendingCommands (Function.update s.workers w _) = _
        rw [hpending, ← add_assoc, h.commands, List.map_append, List.map_singleton,
          ← Multiset.coe_add, Multiset.coe_singleton]
  | @executed w cmd hw =>
      refine ⟨h.good, h.joined, ?_⟩
      have hpending := pendingCommands_update s.workers w .reading
      rw [hw] at hpending
      simp only [WorkerPc.pending, add_zero] at hpending
      rw [← h.commands, ← hpending]
      show ((s.executed ++ [cmd] : List Command) : Multiset Command) +
        pendingCommands (Function.update s.workers w _) = _
      rw [← Multiset.coe_add, Multiset.coe_singleton]
      abel

/-! ## Exactly once -/

/-- The FIFO is empty and no worker is in the middle of a command. -/
def Quiescent (s : State ι) : Prop := s.fifo = [] ∧ ∀ w, s.workers w = .reading

/-- A read takes exactly one line. -/
def WholeRead (s : State ι) : Action ι → Prop
  | .read _ n => LineStream.IsLine lf (s.fifo.take n)
  | _ => True

omit [Fintype ι] in
/-- The chunks are what the reads took. -/
theorem isLine_chunks_iff {as : List (Action ι)} {s : State ι}
    (hrun : (machine ι).run as = some s) :
    (∀ c ∈ s.chunks, LineStream.IsLine lf c) ↔ (machine ι).EachStep as WholeRead := by
  induction as using List.reverseRecOn generalizing s with
  | nil =>
      rw [Machine.run_nil, Option.some.injEq] at hrun
      subst hrun
      exact iff_of_true (by simp [machine, start]) Machine.eachStep_nil
  | append_singleton as a ih =>
      obtain ⟨t, ht, hstep⟩ := Machine.run_concat_eq_some.mp hrun
      rw [Machine.eachStep_concat ht, ← ih ht]
      cases step_cases hstep with
      | submitted => exact (and_iff_left trivial).symm
      | refused => exact (and_iff_left trivial).symm
      | read _ _ =>
          exact List.forall_mem_append.trans (and_congr_right fun _ => List.forall_mem_singleton)
      | executed _ => exact (and_iff_left trivial).symm

/-- At rest, the commands executed are the commands submitted just when every read
took exactly one line. -/
theorem executed_iff_whole_reads {as : List (Action ι)} {s : State ι}
    (hgood : ∀ cmd, .submit cmd true ∈ as → GoodCommand cmd)
    (hrun : (machine ι).run as = some s) (hrest : Quiescent s) :
    (s.executed : Multiset Command) = s.submitted ↔ (machine ι).EachStep as WholeRead := by
  have hsubmits : (machine ι).EachStep as fun _ => GoodSubmit := by
    intro pre a hpre _ _
    have hmem : a ∈ as := hpre.subset (by simp)
    cases a with
    | submit taskCmd ok =>
        cases ok with
        | true => exact hgood taskCmd hmem
        | false => trivial
    | _ => trivial
  have h : Ledger s := Machine.always_of_eachStep ledger_start
    (fun hl hs ha => hl.step (step_cases hs) ha) hrun hsubmits as (List.prefix_refl _) s hrun
  obtain ⟨hfifo, hworkers⟩ := hrest
  have hjoined : s.chunks.flatten = LineStream.stream lf s.submitted := by
    rw [← h.joined, hfifo, List.append_nil]
  have hexecuted : (s.executed : Multiset Command) =
      (s.chunks.map (LineStream.command lf) : Multiset Command) := by
    have hnone : pendingCommands s.workers = 0 := by
      simp [pendingCommands, hworkers, WorkerPc.pending]
    rw [← add_zero (s.executed : Multiset Command), ← hnone, h.commands]
    refine congrArg _ (List.map_congr_left fun c hc => commandOf_eq fun b hb => ?_)
    exact ne_of_mem_stream h.good (hjoined ▸ List.mem_flatten.mpr ⟨c, hc, hb⟩)
  have hlines : ∀ l ∈ s.submitted, l ≠ [] ∧ lf ∉ l :=
    fun l hl => ⟨(h.good l hl).ne_nil, (h.good l hl).lf_not_mem⟩
  rw [hexecuted, Multiset.coe_eq_coe, LineStream.perm_iff_isLine hlines hjoined,
    isLine_chunks_iff hrun]

/-- Two commands of one byte are submitted and each is read by itself. -/
def readApart : List (Action (Fin 2)) :=
  [.submit [65] true, .submit [66] true, .read 0 2, .read 1 2, .execute 0, .execute 1]

/-- Both are executed. -/
theorem executed_iff_whole_reads_apart : ∃ s, (machine (Fin 2)).run readApart = some s ∧
    (s.executed : Multiset Command) = s.submitted := by
  have hrun : ((machine (Fin 2)).run readApart).map (fun s =>
      (s.fifo, s.workers 0, s.workers 1, s.chunks)) =
      some ([], .reading, .reading, [[65, lf], [66, lf]]) := by decide
  obtain ⟨s, hs, heq⟩ := Option.map_eq_some_iff.mp hrun
  simp only [Prod.mk.injEq] at heq
  refine ⟨s, hs, (executed_iff_whole_reads ?_ hs ⟨heq.1, fun w => ?_⟩).mpr ?_⟩
  · intro cmd hcmd
    simp only [readApart, List.mem_cons, Action.submit.injEq, and_true, reduceCtorEq, or_false,
      List.not_mem_nil] at hcmd
    rcases hcmd with rfl | rfl <;> exact ⟨by simp, by simp, by simp [cr, lf]⟩
  · match w with
    | 0 => exact heq.2.1
    | 1 => exact heq.2.2.1
  · rw [← isLine_chunks_iff hs, heq.2.2.2, List.forall_mem_cons, List.forall_mem_singleton]
    exact ⟨⟨[65], by decide, rfl⟩, ⟨[66], by decide, rfl⟩⟩

/-- One read takes both, and the second is never executed. -/
theorem second_command_lost : ¬ ∀ (as : List (Action (Fin 2))) (s : State (Fin 2)),
    (∀ cmd, .submit cmd true ∈ as → GoodCommand cmd) → (machine (Fin 2)).run as = some s →
      Quiescent s → (s.executed : Multiset Command) = s.submitted := by
  intro h
  have hrun : ((machine (Fin 2)).run
      [.submit [65] true, .submit [66] true, .read 0 4, .execute 0]).map (fun s =>
      (s.fifo, s.workers 0, s.workers 1, s.executed, s.submitted)) =
      some ([], .reading, .reading, [[65]], [[65], [66]]) := rfl
  obtain ⟨s, hs, heq⟩ := Option.map_eq_some_iff.mp hrun
  simp only [Prod.mk.injEq] at heq
  obtain ⟨hfifo, h0, h1, hexecuted, hsubmitted⟩ := heq
  have hperm := h _ s ?_ hs ⟨hfifo, fun w => ?_⟩
  · rw [hexecuted, hsubmitted] at hperm
    exact absurd (congrArg Multiset.card hperm) (by decide)
  · intro cmd hcmd
    simp only [List.mem_cons, Action.submit.injEq, and_true, reduceCtorEq, or_false,
      List.not_mem_nil] at hcmd
    rcases hcmd with rfl | rfl <;> exact ⟨by simp, by simp, by simp [cr, lf]⟩
  · match w with
    | 0 => exact h0
    | 1 => exact h1

end IotEdge.ProcessPool
