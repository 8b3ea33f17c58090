import IotEdge.Gateway.CloudClient

/-!
# The ring and its semaphore

The upload thread takes a record without looking at the indices.  That is safe
because of one count: the occupied slots are as many as the value of `data_sem`,
the posts the producers still owe, and the tokens the upload thread holds,
together.  So a token in hand means an occupied slot.

`Inv` is this count with the two facts around it.  The records that entered the
ring are those that left it followed by those still in it, and the batch in
progress is the end of what left it.
-/

namespace IotEdge.CloudClient

variable {ι : Type} [DecidableEq ι]

/-- The batch is what was popped from position `first` on. -/
def Batch.EndsAt (b : Batch) (popped : List IPCData) : Prop :=
  b.first ≤ popped.length ∧ popped.drop b.first = b.records

/-- The size of the batch in progress, and that it was popped last.  Outside the
critical section a batch has at least the record the thread was woken for. -/
def ConsumerPc.BatchOk (popped : List IPCData) : ConsumerPc → Prop
  | .atWait | .atLock => True
  | .atPop b => b.records.length < batchSize ∧ b.EndsAt popped
  | .atTest b | .atUnlock b | .atSocket b | .atConnect b | .atWrite b | .atClose b _ =>
      (0 < b.records.length ∧ b.records.length ≤ batchSize) ∧ b.EndsAt popped

/-- What holds in every reachable state. -/
structure Inv (s : State ι) : Prop where
  /-- Nothing is lost, repeated or reordered in the ring. -/
  contents : s.accepted = s.popped ++ s.queue.contents
  /-- Occupied slots are tokens: free, owed, or in hand. -/
  count : s.queue.occupancy = s.dataSem + s.owes.card + s.consumer.tokens
  /-- The batch in progress. -/
  batch : s.consumer.BatchOk s.popped

/-! ## Batches -/

theorem Batch.EndsAt.length {b : Batch} {popped : List IPCData} (h : b.EndsAt popped) :
    b.first + b.records.length = popped.length := by
  have hlen := congrArg List.length h.2
  rw [List.length_drop] at hlen
  have hle := h.1
  omega

/-- The empty batch of a new iteration. -/
theorem Batch.endsAt_nil (popped : List IPCData) : Batch.EndsAt ⟨popped.length, []⟩ popped :=
  ⟨Nat.le_refl _, List.drop_length⟩

/-- Taking one more record. -/
theorem Batch.EndsAt.concat {b : Batch} {popped : List IPCData} (h : b.EndsAt popped)
    (r : IPCData) : Batch.EndsAt { b with records := b.records ++ [r] } (popped ++ [r]) := by
  refine ⟨?_, ?_⟩
  · rw [List.length_append]
    exact Nat.le_add_right_of_le h.1
  · rw [List.drop_append_of_le_length h.1, h.2]

theorem ConsumerPc.BatchOk.endsAt {pc : ConsumerPc} {popped : List IPCData} {b : Batch}
    (h : pc.BatchOk popped) (hb : pc.batch? = some b) : b.EndsAt popped := by
  cases pc with
  | atWait => cases hb
  | atLock => cases hb
  | _ => cases hb; exact h.2

theorem ConsumerPc.BatchOk.length_le {pc : ConsumerPc} {popped : List IPCData} {b : Batch}
    (h : pc.BatchOk popped) (hb : pc.batch? = some b) : b.records.length ≤ batchSize := by
  cases pc with
  | atWait => cases hb
  | atLock => cases hb
  | atPop => cases hb; exact Nat.le_of_lt h.1
  | _ => cases hb; exact h.1.2

/-! ## The invariant -/

omit [DecidableEq ι] in
theorem inv_start : Inv (start ι) where
  contents := rfl
  count := by simp [start, ConsumerPc.tokens]
  batch := trivial

omit [DecidableEq ι] in
/-- A token in hand means an occupied slot, and its record is the oldest one. -/
theorem Inv.front {s : State ι} (h : Inv s) {b : Batch} (hc : s.consumer = .atPop b) :
    s.queue.contents = s.queue.front :: s.queue.pop.contents ∧
      s.queue.occupancy = s.queue.pop.occupancy + 1 := by
  apply DataQueue.contents_eq_cons
  have hcount := h.count
  rw [hc] at hcount
  simp only [ConsumerPc.tokens] at hcount
  omega

theorem Inv.step {s s' : State ι} {a : Action ι} (h : Inv s) (hs : Step s a s') : Inv s' := by
  have hcount := h.count
  have hbatch := h.batch
  cases hs with
  | pushed hp _ hq =>
      obtain ⟨hcon, hocc⟩ := DataQueue.push_eq_some hq
      refine ⟨?_, ?_, hbatch⟩
      · simp only [h.contents, hcon, List.append_assoc]
      · simp only [hocc, Finset.card_insert_of_notMem hp]
        omega
  | refused _ => exact h
  | posted hp =>
      have hpos : 0 < s.owes.card := Finset.card_pos.mpr ⟨_, hp⟩
      refine ⟨h.contents, ?_, hbatch⟩
      simp only [Finset.card_erase_of_mem hp]
      omega
  | waited hc hn =>
      rw [hc] at hcount
      refine ⟨h.contents, ?_, trivial⟩
      simp only [ConsumerPc.tokens] at hcount ⊢
      omega
  | locked hc =>
      rw [hc] at hcount
      exact ⟨h.contents, hcount, by simp [batchSize], Batch.endsAt_nil _⟩
  | popped hc =>
      rw [hc] at hcount hbatch
      obtain ⟨hcon, hocc⟩ := h.front hc
      refine ⟨?_, ?_, ⟨?_, ?_⟩, hbatch.2.concat _⟩
      · simp only [h.contents, hcon, List.append_assoc, List.singleton_append]
      · simp only [ConsumerPc.tokens] at hcount ⊢
        omega
      · simp
      · simpa using Nat.succ_le_of_lt hbatch.1
  | token hc hlt hpos =>
      rw [hc] at hcount hbatch
      refine ⟨h.contents, ?_, hlt, hbatch.2⟩
      simp only [ConsumerPc.tokens] at hcount ⊢
      omega
  | noToken hc | unlocked hc | socketOk hc | connectOk hc | writeOk hc | writeFailed hc =>
      rw [hc] at hcount hbatch
      exact ⟨h.contents, hcount, hbatch⟩
  | socketFailed hc | connectFailed hc | closed hc =>
      rw [hc] at hcount
      exact ⟨h.contents, hcount, trivial⟩

theorem Inv.of_reachable {s : State ι} (h : (machine ι).Reachable s) : Inv s :=
  h.invariant inv_start fun hi hs => hi.step (step_cases hs)

/-! ## The protocol -/

/-- In every reachable state the occupied slots are counted by the semaphore,
the posts still owed and the token in hand.  A `pop` takes the oldest record
that was accepted and not yet popped, at most 1023 records wait, a batch has at
most 50, and the records popped so far are the first ones accepted. -/
theorem queue_semaphore_protocol {s : State ι} (h : (machine ι).Reachable s) :
    ((s.queue.queueHead : ℤ) - (s.queue.queueTail : ℤ)) % maxQueueSize =
        (s.dataSem + s.owes.card + s.consumer.tokens : ℕ) ∧
      (∀ b, s.consumer = .atPop b → s.accepted[s.popped.length]? = some s.queue.front) ∧
      s.accepted.length ≤ s.popped.length + 1023 ∧
      (∀ b, s.consumer.batch? = some b → b.records.length ≤ 50) ∧
      s.popped <+: s.accepted := by
  have hi := Inv.of_reachable h
  refine ⟨?_, ?_, ?_, ?_, ?_⟩
  · rw [← hi.count]
    exact s.queue.occupancy_eq_emod
  · intro b hb
    rw [hi.contents, (hi.front hb).1, List.getElem?_append_right (Nat.le_refl _), Nat.sub_self]
    rfl
  · have hle := s.queue.occupancy_le
    rw [hi.contents, List.length_append, DataQueue.length_contents]
    omega
  · intro b hb
    exact hi.batch.length_le hb
  · rw [hi.contents]
    exact List.prefix_append _ _

/-- Two producers, the second with its post still owed, and a batch in progress. -/
theorem queue_semaphore_protocol_batch :
    ∃ s, (machine (Fin 2)).run [.push 0 (.single 7 ⟨1⟩), .post 0, .semWait,
        .push 1 (.combinedTemp ⟨2⟩), .lock, .pop] = some s ∧
      s.accepted.length ≤ s.popped.length + 1023 ∧ s.popped <+: s.accepted := by
  obtain ⟨s, hs⟩ := Option.isSome_iff_exists.mp (show ((machine (Fin 2)).run
    [.push 0 (.single 7 ⟨1⟩), .post 0, .semWait, .push 1 (.combinedTemp ⟨2⟩), .lock,
      .pop]).isSome by decide)
  obtain ⟨-, -, hlen, -, hpre⟩ := queue_semaphore_protocol ⟨_, hs⟩
  exact ⟨s, hs, hlen, hpre⟩

end IotEdge.CloudClient
