import IotEdge.Lib.Circular

/-!
# The record queue

`main.c` defines one ring of `MAX_QUEUE_SIZE` records between the event loop and
the upload thread, and the two indices into it.  The writers leave one slot
free, so equal indices mean an empty ring.  The readers do not test for that:
`pop` is the two statements of `cloud_client_thread` that take a record, and
they take whatever `queue_tail` points at.

The indices are `int`s that always come out of `% MAX_QUEUE_SIZE`.  Here they
are `Fin maxQueueSize`, whose addition wraps in the same way.

`contents` is the ring read as a list, oldest record first.  `push_eq_some` and
`contents_eq_cons` say what the two operations do to it.
-/

namespace IotEdge

/-- A C `double`, as its bit pattern.  The gateway only copies it. -/
structure Double where
  /-- The IEEE 754 encoding. -/
  bits : BitVec 64
deriving DecidableEq, Repr

/-- `IPCData`: a record, as it is queued and as local clients send it. -/
structure IPCData where
  sensorId : UInt32
  sensorData : Double
deriving DecidableEq, Repr

/-- `MAX_QUEUE_SIZE`. -/
abbrev maxQueueSize : Nat := 1024

instance : NeZero maxQueueSize := ⟨by decide⟩

/-- `data_queue`, `queue_head` and `queue_tail`. -/
structure DataQueue where
  dataQueue : Fin maxQueueSize → IPCData
  /-- `queue_head`, where the next record is written. -/
  queueHead : Fin maxQueueSize
  /-- `queue_tail`, where the next record is read. -/
  queueTail : Fin maxQueueSize

namespace DataQueue

/-- The queue at program start: static storage is zero. -/
def init : DataQueue where
  dataQueue := fun _ => ⟨0, ⟨0⟩⟩
  queueHead := 0
  queueTail := 0

/-- What a push site does while it holds `queue_mutex`.  `none` when the ring is
full, and then nothing is written. -/
def push (q : DataQueue) (data : IPCData) : Option DataQueue :=
  let nextHead := q.queueHead + 1
  if nextHead ≠ q.queueTail then
    some { q with
      dataQueue := Function.update q.dataQueue q.queueHead data
      queueHead := nextHead }
  else none

/-- `data_queue[queue_tail]`. -/
def front (q : DataQueue) : IPCData := q.dataQueue q.queueTail

/-- `queue_tail = (queue_tail + 1) % MAX_QUEUE_SIZE`. -/
def pop (q : DataQueue) : DataQueue := { q with queueTail := q.queueTail + 1 }

/-- The number of occupied slots, `(queue_head - queue_tail) mod MAX_QUEUE_SIZE`. -/
def occupancy (q : DataQueue) : Nat := Circular.dist q.queueTail q.queueHead

/-- The occupied slots in the order they were written. -/
def contents (q : DataQueue) : List IPCData :=
  Circular.window q.dataQueue q.queueTail q.occupancy

/-! ## The ring as a list -/

@[simp] theorem length_contents (q : DataQueue) : q.contents.length = q.occupancy := by
  simp [contents]

@[simp] theorem occupancy_init : init.occupancy = 0 := rfl

@[simp] theorem contents_init : init.contents = [] := rfl

theorem occupancy_le (q : DataQueue) : q.occupancy ≤ 1023 :=
  Nat.le_of_lt_succ (Circular.dist_lt _ _)

/-- The head is `occupancy` places after the tail. -/
theorem index_occupancy (q : DataQueue) :
    Circular.index q.queueTail q.occupancy = q.queueHead :=
  Circular.index_dist _ _

theorem occupancy_eq_emod (q : DataQueue) :
    ((q.queueHead : ℤ) - (q.queueTail : ℤ)) % 1024 = q.occupancy := by
  have h : q.queueHead.val = (q.queueTail.val + q.occupancy) % 1024 := by
    conv_lhs => rw [← q.index_occupancy, Circular.index_val]
  have hlt := q.occupancy_le
  have htail := q.queueTail.isLt
  omega

/-- A push that succeeds appends its record. -/
theorem push_eq_some {q q' : DataQueue} {data : IPCData} (h : q.push data = some q') :
    q'.contents = q.contents ++ [data] ∧ q'.occupancy = q.occupancy + 1 := by
  simp only [push] at h
  split at h
  next hroom =>
    cases h
    have hne : q.occupancy + 1 < maxQueueSize := by
      have hle := q.occupancy_le
      refine Nat.lt_of_le_of_ne (Nat.succ_le_succ hle) fun hfull => hroom ?_
      rw [← q.index_occupancy, Circular.index_add_one, hfull]
      simp [Circular.index]
    have hocc : Circular.dist q.queueTail (q.queueHead + 1) = q.occupancy + 1 := by
      rw [← q.index_occupancy, Circular.index_add_one, Circular.dist_index hne]
    refine ⟨?_, hocc⟩
    have happend := Circular.window_push q.dataQueue q.queueTail (Nat.lt_of_succ_lt hne) data
    rw [q.index_occupancy] at happend
    show Circular.window _ _ (Circular.dist q.queueTail (q.queueHead + 1)) = _
    rw [hocc]
    exact happend
  next hfull => cases h

/-- A push fails exactly when the ring holds `MAX_QUEUE_SIZE - 1` records. -/
theorem push_eq_none_iff {q : DataQueue} {data : IPCData} :
    q.push data = none ↔ q.occupancy = 1023 := by
  have hiff : q.queueHead + 1 = q.queueTail ↔ q.occupancy = 1023 := by
    rw [← q.index_occupancy, Circular.index_add_one]
    have hle := q.occupancy_le
    constructor
    · intro h
      by_contra hne
      have h0 : Circular.index q.queueTail (q.occupancy + 1) = Circular.index q.queueTail 0 := by
        rw [h, Circular.index_zero]
      have hlt : q.occupancy + 1 < maxQueueSize := by
        show q.occupancy + 1 < 1024
        omega
      exact absurd (Circular.index_inj hlt (by decide) h0) (Nat.succ_ne_zero _)
    · intro h
      rw [h]
      simp [Circular.index]
  rw [← hiff]
  simp [push]

/-- Taking a record from a ring that is not empty takes the oldest. -/
theorem contents_eq_cons {q : DataQueue} (h : 0 < q.occupancy) :
    q.contents = q.front :: q.pop.contents ∧ q.occupancy = q.pop.occupancy + 1 := by
  obtain ⟨k, hk⟩ : ∃ k, q.occupancy = k + 1 := ⟨q.occupancy - 1, by omega⟩
  have hle := q.occupancy_le
  have hpop : q.pop.occupancy = k := by
    have hhead : Circular.index (q.queueTail + 1) k = q.queueHead := by
      rw [← Circular.index_succ, ← hk, q.index_occupancy]
    rw [occupancy, pop, ← hhead]
    exact Circular.dist_index (show k < 1024 by omega)
  refine ⟨?_, by omega⟩
  rw [contents, contents, hk, hpop, Circular.window_succ]
  rfl

end DataQueue

/-! ## The push sites -/

/-- The four places that push a record, with the values they push. -/
inductive PushSite where
  /-- The temperature of a combined datagram. -/
  | combinedTemp (tempVal : Double)
  /-- The humidity of a combined datagram. -/
  | combinedHum (humVal : Double)
  /-- A datagram with a single record. -/
  | single (sensorId : UInt32) (sensorData : Double)
  /-- A record read from a local client. -/
  | ipc (data : IPCData)
deriving DecidableEq, Repr

/-- The record a push site writes. -/
def PushSite.record : PushSite → IPCData
  | .combinedTemp tempVal => ⟨16790, tempVal⟩
  | .combinedHum humVal => ⟨16789, humVal⟩
  | .single sensorId sensorData => ⟨sensorId, sensorData⟩
  | .ipc data => ⟨data.sensorId, data.sensorData⟩

end IotEdge
