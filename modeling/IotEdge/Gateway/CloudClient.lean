import IotEdge.Lib.Machine
import IotEdge.Gateway.DataQueue
import Mathlib.Data.Finset.Card

/-!
# The upload thread and the producers

`cloud_client_thread` waits on `data_sem`, takes up to 50 records out of the ring
while it holds `queue_mutex`, and then sends them in one HTTP request.  The
producers push a record in a critical section of `queue_mutex` and call
`sem_post` after they have left it.  So the ring, the semaphore and the mutex
change at different moments, and `pop` does not test for an empty ring.

A label is one critical section of a producer, one `sem_post`, or one step of
the upload thread.  A producer's critical section is one label because nothing
else that touches the ring can run inside it.  The upload thread's critical
section is not, since posts go on while it runs: each `sem_trywait` and each
`pop` is a label, and a push is possible only while the thread is outside.
`sem_wait` is the step that takes a token.

Three fields of the state are not in the source.  `accepted` and `popped` list
the records in the order they entered and left the ring, and `requests` lists
the batches whose `write` succeeded.  A record is named by its position in
`accepted`, so that equal readings stay different records.

`Inv` says how the ring, the semaphore and the two lists are related.
`Sent` says where the batches of the finished iterations went.
-/

namespace IotEdge.CloudClient

/-- A batch: the records, and the position of the first one in `accepted`. -/
structure Batch where
  /-- The position of the first record. -/
  first : Nat
  /-- `batch[0..count-1]`. -/
  records : List IPCData
deriving DecidableEq, Repr

/-- Where the upload thread is in its loop. -/
inductive ConsumerPc where
  /-- At `sem_wait`. -/
  | atWait
  /-- At `pthread_mutex_lock`, with the token of `sem_wait`. -/
  | atLock
  /-- In the critical section with a token, about to take a record. -/
  | atPop (b : Batch)
  /-- In the critical section, at the test of the `while`. -/
  | atTest (b : Batch)
  /-- At `pthread_mutex_unlock`. -/
  | atUnlock (b : Batch)
  /-- Outside, at `socket`. -/
  | atSocket (b : Batch)
  /-- At `connect`. -/
  | atConnect (b : Batch)
  /-- At `write`. -/
  | atWrite (b : Batch)
  /-- At the end of the body: reading the response, `close`, `sleep`.  The flag
  says whether `write` succeeded. -/
  | atClose (b : Batch) (written : Bool)
deriving DecidableEq, Repr

namespace ConsumerPc

/-- Whether the upload thread holds `queue_mutex`. -/
def locked : ConsumerPc → Bool
  | .atPop _ | .atTest _ | .atUnlock _ => true
  | _ => false

/-- The tokens taken from `data_sem` and not yet used for a `pop`. -/
def tokens : ConsumerPc → Nat
  | .atLock | .atPop _ => 1
  | _ => 0

/-- The batch of the iteration in progress. -/
def batch? : ConsumerPc → Option Batch
  | .atWait | .atLock => none
  | .atPop b | .atTest b | .atUnlock b | .atSocket b | .atConnect b | .atWrite b
  | .atClose b _ => some b

end ConsumerPc

/-- The producers `ι`, the upload thread and what they share. -/
structure State (ι : Type) where
  /-- The ring. -/
  queue : DataQueue
  /-- The value of `data_sem`. -/
  dataSem : Nat
  /-- The producers that have pushed and not yet posted. -/
  owes : Finset ι
  /-- The upload thread. -/
  consumer : ConsumerPc
  /-- The records pushed so far, in order. -/
  accepted : List IPCData
  /-- The records popped so far, in order. -/
  popped : List IPCData
  /-- The batches whose `write` succeeded. -/
  requests : List Batch

/-- The labels of the system. -/
inductive Action (ι : Type) where
  /-- The critical section of a producer at a push site. -/
  | push (p : ι) (site : PushSite)
  /-- `sem_post` of a producer. -/
  | post (p : ι)
  | semWait
  | lock
  /-- `batch[count++] = data_queue[queue_tail]` and the advance of `queue_tail`. -/
  | pop
  /-- `count < 50 && sem_trywait(&data_sem) == 0`. -/
  | tryWait
  | unlock
  /-- `socket`, and whether it succeeded. -/
  | socket (ok : Bool)
  /-- `connect`, and whether it succeeded. -/
  | connect (ok : Bool)
  /-- `write`, and whether it succeeded. -/
  | write (ok : Bool)
  /-- The rest of the body. -/
  | close

/-- The most records in one batch. -/
def batchSize : Nat := 50

variable {ι : Type} [DecidableEq ι]

/-- One step.  After a failed `socket` or `connect` the body is left by
`continue`, and the batch, a local of the body, is gone. -/
def step (s : State ι) : Action ι → Option (State ι)
  | .push p site =>
      if p ∉ s.owes ∧ s.consumer.locked = false then
        match s.queue.push site.record with
        | some q => some { s with
            queue := q
            owes := insert p s.owes
            accepted := s.accepted ++ [site.record] }
        | none => some s
      else none
  | .post p =>
      if p ∈ s.owes then
        some { s with owes := s.owes.erase p, dataSem := s.dataSem + 1 }
      else none
  | .semWait =>
      match s.consumer, s.dataSem with
      | .atWait, n + 1 => some { s with dataSem := n, consumer := .atLock }
      | _, _ => none
  | .lock =>
      match s.consumer with
      | .atLock => some { s with consumer := .atPop ⟨s.popped.length, []⟩ }
      | _ => none
  | .pop =>
      match s.consumer with
      | .atPop b => some { s with
          queue := s.queue.pop
          consumer := .atTest { b with records := b.records ++ [s.queue.front] }
          popped := s.popped ++ [s.queue.front] }
      | _ => none
  | .tryWait =>
      match s.consumer with
      | .atTest b =>
          if b.records.length < batchSize ∧ 0 < s.dataSem then
            some { s with dataSem := s.dataSem - 1, consumer := .atPop b }
          else some { s with consumer := .atUnlock b }
      | _ => none
  | .unlock =>
      match s.consumer with
      | .atUnlock b => some { s with consumer := .atSocket b }
      | _ => none
  | .socket ok =>
      match s.consumer with
      | .atSocket b => some { s with consumer := if ok then .atConnect b else .atWait }
      | _ => none
  | .connect ok =>
      match s.consumer with
      | .atConnect b => some { s with consumer := if ok then .atWrite b else .atWait }
      | _ => none
  | .write ok =>
      match s.consumer with
      | .atWrite b => some { s with
          consumer := .atClose b ok
          requests := if ok then s.requests ++ [b] else s.requests }
      | _ => none
  | .close =>
      match s.consumer with
      | .atClose _ _ => some { s with consumer := .atWait }
      | _ => none

/-- Program start. -/
def start (ι : Type) : State ι where
  queue := .init
  dataSem := 0
  owes := ∅
  consumer := .atWait
  accepted := []
  popped := []
  requests := []

/-- The upload thread with producers `ι`. -/
def machine (ι : Type) [DecidableEq ι] : Machine (State ι) (Action ι) := ⟨start ι, step⟩

/-! ## The transitions -/

/-- The transitions of `step`, one constructor for each outcome. -/
inductive Step (s : State ι) : Action ι → State ι → Prop where
  | pushed {p : ι} {site : PushSite} {q : DataQueue} :
      p ∉ s.owes → s.consumer.locked = false → s.queue.push site.record = some q →
      Step s (.push p site)
        { s with queue := q, owes := insert p s.owes, accepted := s.accepted ++ [site.record] }
  | refused {p : ι} {site : PushSite} :
      s.queue.push site.record = none → Step s (.push p site) s
  | posted {p : ι} :
      p ∈ s.owes → Step s (.post p) { s with owes := s.owes.erase p, dataSem := s.dataSem + 1 }
  | waited {n : Nat} :
      s.consumer = .atWait → s.dataSem = n + 1 →
      Step s .semWait { s with dataSem := n, consumer := .atLock }
  | locked :
      s.consumer = .atLock → Step s .lock { s with consumer := .atPop ⟨s.popped.length, []⟩ }
  | popped {b : Batch} :
      s.consumer = .atPop b →
      Step s .pop { s with
        queue := s.queue.pop
        consumer := .atTest { b with records := b.records ++ [s.queue.front] }
        popped := s.popped ++ [s.queue.front] }
  | token {b : Batch} :
      s.consumer = .atTest b → b.records.length < batchSize → 0 < s.dataSem →
      Step s .tryWait { s with dataSem := s.dataSem - 1, consumer := .atPop b }
  | noToken {b : Batch} :
      s.consumer = .atTest b → Step s .tryWait { s with consumer := .atUnlock b }
  | unlocked {b : Batch} :
      s.consumer = .atUnlock b → Step s .unlock { s with consumer := .atSocket b }
  | socketOk {b : Batch} :
      s.consumer = .atSocket b → Step s (.socket true) { s with consumer := .atConnect b }
  | socketFailed {b : Batch} :
      s.consumer = .atSocket b → Step s (.socket false) { s with consumer := .atWait }
  | connectOk {b : Batch} :
      s.consumer = .atConnect b → Step s (.connect true) { s with consumer := .atWrite b }
  | connectFailed {b : Batch} :
      s.consumer = .atConnect b → Step s (.connect false) { s with consumer := .atWait }
  | writeOk {b : Batch} :
      s.consumer = .atWrite b →
      Step s (.write true) { s with consumer := .atClose b true, requests := s.requests ++ [b] }
  | writeFailed {b : Batch} :
      s.consumer = .atWrite b → Step s (.write false) { s with consumer := .atClose b false }
  | closed {b : Batch} {written : Bool} :
      s.consumer = .atClose b written → Step s .close { s with consumer := .atWait }

/-- Every step is one of the transitions. -/
theorem step_cases {s s' : State ι} {a : Action ι} (h : step s a = some s') : Step s a s' := by
  cases a with
  | push p site =>
      simp only [step] at h
      split at h
      next hfree =>
        cases hq : s.queue.push site.record with
        | some q =>
            rw [hq] at h
            cases h
            exact .pushed hfree.1 hfree.2 hq
        | none =>
            rw [hq] at h
            cases h
            exact .refused hq
      next => cases h
  | post p =>
      simp only [step] at h
      split at h
      next hp => cases h; exact .posted hp
      next => cases h
  | semWait =>
      simp only [step] at h
      split at h
      next hc hn => cases h; exact .waited hc hn
      next => cases h
  | lock =>
      simp only [step] at h
      split at h
      next hc => cases h; exact .locked hc
      next => cases h
  | pop =>
      simp only [step] at h
      split at h
      next hc => cases h; exact .popped hc
      next => cases h
  | tryWait =>
      simp only [step] at h
      split at h
      next hc =>
        split at h
        next htok => cases h; exact .token hc htok.1 htok.2
        next => cases h; exact .noToken hc
      next => cases h
  | unlock =>
      simp only [step] at h
      split at h
      next hc => cases h; exact .unlocked hc
      next => cases h
  | socket ok =>
      simp only [step] at h
      split at h
      next hc =>
        cases h
        cases ok with
        | true => exact .socketOk hc
        | false => exact .socketFailed hc
      next => cases h
  | connect ok =>
      simp only [step] at h
      split at h
      next hc =>
        cases h
        cases ok with
        | true => exact .connectOk hc
        | false => exact .connectFailed hc
      next => cases h
  | write ok =>
      simp only [step] at h
      split at h
      next hc =>
        cases h
        cases ok with
        | true => exact .writeOk hc
        | false => exact .writeFailed hc
      next => cases h
  | close =>
      simp only [step] at h
      split at h
      next hc => cases h; exact .closed hc
      next => cases h

end IotEdge.CloudClient
