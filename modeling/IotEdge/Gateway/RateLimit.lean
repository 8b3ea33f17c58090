import IotEdge.Gateway.Pipeline
import IotEdge.Gateway.DoubleBucket

/-!
# The token bucket and the ring

`handle_udp_read` asks the bucket before it parses a datagram, and `main` fills the
bucket with 100 tokens and adds 50 a second.  A datagram is at most two records, so the
bucket also bounds how fast the ring can fill.

`State.load` counts the records in the ring, those still to be pushed, and two for each
token.  It rises only with the clock and with the records of local clients.  So the ring
has room for every datagram for as long as the load and what the clock adds are below its
size (`burst_absorbed`), whether the upload thread takes records meanwhile or not.  From an
empty ring that is more than eight seconds (`stall_absorbed`).

The tokens are a `double`, and what the clock adds is rounded.  `perMillisecond` is the tenth
of a record that the rate comes to, and the most that the rounding adds to it.
-/

namespace IotEdge.RateLimit

open Pipeline (pushSite)
open Binary64 (toRat)

/-- The event loop and the bucket. -/
structure State where
  loop : EventLoop.State
  bucket : DoubleBucket

/-- The labels. -/
inductive Action where
  /-- A datagram, and what `get_time_ms` returns. -/
  | recvfrom (bytes : List UInt8) (now : Int)
  /-- Any other label of the event loop. -/
  | other (a : EventLoop.Action)

/-- One step.  Without a byte, `handle_udp_read` returns before it asks for a token. -/
def step (sk : EventLoop.Sockets) (parse : List UInt8 → UdpMessage) (s : State) :
    Action → Option State
  | .recvfrom bytes now =>
      let (token, bucket) := s.bucket.consume 1 now
      (EventLoop.step sk parse s.loop (.recvfrom bytes token)).map fun loop =>
        ⟨loop, if bytes = [] then s.bucket else bucket⟩
  | .other (.recvfrom _ _) => none
  | .other a => (EventLoop.step sk parse s.loop a).map fun loop => ⟨loop, s.bucket⟩

/-- The call of `start_event_loop`, with the bucket as `main` initialised it. -/
def start (sk : EventLoop.Sockets) (now : Int) : State where
  loop := EventLoop.start sk
  bucket := .init 100 50 now

/-- The event loop with its bucket, which was initialised at `now`. -/
def machine (sk : EventLoop.Sockets) (parse : List UInt8 → UdpMessage) (now : Int) :
    Machine State Action :=
  ⟨start sk now, step sk parse⟩

/-- The records of the datagram that are still to be pushed. -/
def pending (s : EventLoop.State) : List PushSite :=
  match s.pc with
  | .pushing _ sites => sites
  | _ => []

/-- The records in the ring and those to be pushed. -/
def records (s : EventLoop.State) : Nat := s.store.queue.occupancy + (pending s).length

/-- The records, and two for each token. -/
def State.load (s : State) : ℚ := records s.loop + 2 * toRat s.bucket.tokens

/-- The records that a millisecond adds: two for each of 50 tokens a second, and the error of
`DoubleBucket.Filled.refill_le`. -/
def perMillisecond : ℚ := 1 / 10 + 1 / 2 ^ 43

/-- The label is a record of a local client. -/
def isRead : EventLoop.Action → Bool
  | .read _ _ => true
  | _ => false

/-- The records of local clients. -/
def Action.reads : Action → Nat
  | .recvfrom _ _ => 0
  | .other a => (isRead a).toNat

/-- A push finds the ring full. -/
def FindsFull (s : State) : Action → Prop
  | .recvfrom _ _ => False
  | .other a => pushSite s.loop a ≠ none ∧ s.loop.store.queue.occupancy = 1023

/-! ## The records -/

variable {sk : EventLoop.Sockets} {parse : List UInt8 → UdpMessage}

/-- A datagram is at most two records, and it is none without a token. -/
theorem length_handleUdpRead_le (parse : List UInt8 → UdpMessage) (bytes : List UInt8)
    (token : Bool) :
    (handleUdpRead parse bytes token).length ≤ if bytes ≠ [] ∧ token = true then 2 else 0 := by
  rw [handleUdpRead]
  split
  next hempty => simp
  next hne =>
    split
    next hrefused => simp
    next htoken =>
      rw [if_pos ⟨hne, Bool.eq_true_of_not_eq_false htoken⟩]
      cases parse (bufferText bytes) <;> simp [UdpMessage.sites]

/-- Only a datagram and a local client bring records. -/
theorem records_le {s s' : EventLoop.State} {a : EventLoop.Action}
    (hs : EventLoop.Step sk parse s a s') (hne : ∀ bytes token, a ≠ .recvfrom bytes token) :
    records s' ≤ records s + (isRead a).toNat := by
  cases hs with
  | received => exact absurd rfl (hne _ _)
  | @pushed next site sites now hpc =>
      have hpending : pending s = site :: sites := by rw [pending, hpc]
      have hocc : (s.store.pushUdp site now).queue.occupancy ≤ s.store.queue.occupancy + 1 := by
        rcases eq_or_ne s.store.queue.occupancy 1023 with hfull | hroom
        · rw [Store.pushUdp_of_full hfull]
          exact Nat.le_succ _
        · have hlen := congrArg List.length (Store.pushUdp_of_room hroom site now).1
          rw [List.length_append, DataQueue.length_contents, DataQueue.length_contents] at hlen
          exact hlen.le
      rw [records, records, hpending, List.length_cons]
      simp only [pending]
      omega
  | @read i n stack store hpc _ _ _ _ hpush =>
      obtain ⟨queue, hqueue, rfl⟩ := Option.map_eq_some_iff.mp hpush
      have hocc := (DataQueue.push_eq_some hqueue).2
      simp only [records, pending, hpc, isRead, hocc, List.length_nil, Bool.toNat_true]
      exact le_refl _
  | dropped hpc =>
      simp only [records, pending, hpc]
      exact Nat.le_add_right _ _
  | consumed hocc =>
      have hpop := (DataQueue.contents_eq_cons hocc).2
      simp only [records, pending, isRead, Bool.toNat_false]
      omega
  | interrupted | sent | sentRaw => exact Nat.le_add_right _ _
  | quit hpc | polled hpc | failed hpc | skipped hpc | ended hpc | left hpc | acceptFailed hpc
  | accepted hpc | turnedAway hpc | hungUp hpc =>
      simp only [records, pending, hpc]
      exact Nat.le_add_right _ _

/-! ## The load -/

/-- What a step or a run keeps, and how much it adds to the load: `perMillisecond`, and the `n`
records of local clients. -/
structure Adds (s s' : State) (n : Nat) : Prop where
  filled : s'.bucket.Filled
  time : s.bucket.lastTimeMs ≤ s'.bucket.lastTimeMs
  load : s'.load ≤ s.load + (s'.bucket.lastTimeMs - s.bucket.lastTimeMs) * perMillisecond + n

theorem Adds.trans {s t u : State} {n m : Nat} (h : Adds s t n) (h' : Adds t u m) :
    Adds s u (n + m) where
  filled := h'.filled
  time := h.time.trans h'.time
  load := by
    have hload := h.load
    have hload' := h'.load
    push_cast
    linarith

theorem step_adds {s s' : State} {a : Action} (h : s.bucket.Filled)
    (hs : step sk parse s a = some s') : Adds s s' a.reads := by
  cases a with
  | recvfrom bytes now =>
      simp only [step] at hs
      obtain ⟨loop, hloop, rfl⟩ := Option.map_eq_some_iff.mp hs
      cases EventLoop.step_cases hloop with
      | @received i _ _ hpc hread =>
          have hpending : records s.loop = s.loop.store.queue.occupancy := by
            simp only [records, pending, hpc, List.length_nil, Nat.add_zero]
          have hsites := length_handleUdpRead_le parse bytes (s.bucket.consume 1 now).1
          have hload := h.consume_le now
          rcases eq_or_ne bytes [] with rfl | hne
          · refine ⟨by simpa using h, by simp, ?_⟩
            simp only [State.load, hpending]
            simp [records, pending, handleUdpRead]
          · rw [if_neg hne]
            refine ⟨h.consume now, ?_, ?_⟩
            · rw [DoubleBucket.lastTimeMs_consume, DoubleBucket.lastTimeMs_refill]
              exact le_max_left _ _
            have hsites' : ((handleUdpRead parse bytes (s.bucket.consume 1 now).1).length : ℚ) ≤
                2 * if (s.bucket.consume 1 now).1 then 1 else 0 := by
              split at hsites
              next htoken =>
                rw [if_pos htoken.2, mul_one]
                exact_mod_cast hsites
              next htoken =>
                rw [if_neg fun h => htoken ⟨hne, h⟩, mul_zero]
                exact_mod_cast hsites
            simp only [State.load, hpending]
            simp only [records, pending, Action.reads, perMillisecond]
            push_cast at hload ⊢
            linarith
  | other a =>
      have hne : ∀ bytes token, a ≠ .recvfrom bytes token := by
        rintro bytes token rfl
        cases hs
      have hstep : (EventLoop.step sk parse s.loop a).map (fun loop => State.mk loop s.bucket) =
          some s' := by
        cases a with
        | recvfrom bytes token => exact absurd rfl (hne bytes token)
        | _ => exact hs
      obtain ⟨loop, hloop, rfl⟩ := Option.map_eq_some_iff.mp hstep
      refine ⟨h, le_refl _, ?_⟩
      have hrecords : (records loop : ℚ) ≤ records s.loop + (isRead a).toNat := by
        exact_mod_cast records_le (EventLoop.step_cases hloop) hne
      simp only [State.load, Action.reads, sub_self, zero_mul, add_zero]
      linarith

theorem run_adds {now : Int} {s s' : State} {as : List Action} (h : s.bucket.Filled)
    (hrun : (machine sk parse now).runFrom s as = some s') :
    Adds s s' (as.map Action.reads).sum := by
  induction as generalizing s with
  | nil =>
      cases hrun
      exact ⟨h, le_refl _, by simp⟩
  | cons a as ih =>
      obtain ⟨t, ha, hrest⟩ := Machine.runFrom_cons_eq_some.mp hrun
      have hstep := step_adds h ha
      exact hstep.trans (ih hstep.filled hrest)

/-- A load below the size of the ring leaves room for the next record. -/
theorem not_findsFull {s s' : State} {a : Action} (h : s.bucket.Filled)
    (hs : step sk parse s a = some s') (hload : s.load + a.reads ≤ 1023) : ¬ FindsFull s a := by
  cases a with
  | recvfrom => exact id
  | other a =>
      rintro ⟨hsite, hfull⟩
      have hnonneg := Binary64.toRat_nonneg h.nonneg
      have hrecords : records s.loop + (isRead a).toNat ≤ 1023 := by
        have : (records s.loop + (isRead a).toNat : ℚ) ≤ 1023 := by
          rw [State.load, Action.reads] at hload
          linarith
        exact_mod_cast this
      rw [records, hfull] at hrecords
      cases a with
      | push now =>
          cases hpc : s.loop.pc with
          | pushing next sites =>
              cases sites with
              | nil => simp [pushSite, hpc] at hsite
              | cons site sites =>
                  simp only [pending, hpc, List.length_cons] at hrecords
                  omega
          | _ => simp [pushSite, hpc] at hsite
      | read n stack =>
          simp only [isRead, Bool.toNat_true] at hrecords
          omega
      | _ => exact hsite rfl

theorem filled_of_reachable {now : Int} {s : State} (h : (machine sk parse now).Reachable s) :
    s.bucket.Filled := by
  obtain ⟨as, has⟩ := h
  exact (run_adds (DoubleBucket.filled_init now) has).filled

/-- From any reachable state, take any run in which the load, `perMillisecond` for each
millisecond that the reference time moves, and the records of local clients are together at
most 1023.  Then no push in it finds the ring full, at any rate of datagrams, whatever the
clock does, and whether the upload thread takes a record or not. -/
theorem burst_absorbed {now : Int} {s s' : State} (hs : (machine sk parse now).Reachable s)
    {as : List Action} (hrun : (machine sk parse now).runFrom s as = some s')
    (hload : s.load + (s'.bucket.lastTimeMs - s.bucket.lastTimeMs) * perMillisecond +
      (as.map Action.reads).sum ≤ 1023) :
    ∀ pre a, pre ++ [a] <+: as → ∀ t, (machine sk parse now).runFrom s pre = some t →
      ¬ FindsFull t a := by
  intro pre a hpre t ht
  obtain ⟨rest, rfl⟩ := hpre
  have hfilled := filled_of_reachable hs
  rw [Machine.runFrom_append, Machine.runFrom_append, ht] at hrun
  obtain ⟨u, hu, hrest⟩ := Option.bind_eq_some_iff.mp hrun
  obtain ⟨u', hu', hnil⟩ := Machine.runFrom_cons_eq_some.mp hu
  have hbefore := run_adds hfilled ht
  have hafter := step_adds hbefore.filled hu'
  cases hnil
  have hend := run_adds hafter.filled hrest
  refine not_findsFull hbefore.filled hu' ?_
  have htime : (t.bucket.lastTimeMs : ℚ) * perMillisecond ≤
      s'.bucket.lastTimeMs * perMillisecond :=
    mul_le_mul_of_nonneg_right (by exact_mod_cast hafter.time.trans hend.time)
      (by norm_num [perMillisecond])
  have hbound := hbefore.load
  simp only [List.map_append, List.sum_append, List.map_cons, List.map_nil, List.sum_cons,
    List.sum_nil, Nat.add_zero] at hload
  push_cast at hload
  have hnonneg : (0 : ℚ) ≤ ((rest.map Action.reads).sum : ℕ) := Nat.cast_nonneg _
  push_cast at hnonneg hbound
  linarith

/-- A datagram with two records comes to an empty ring. -/
theorem burst_absorbed_datagram : ∃ t,
    (machine .usual (fun _ => .combined ⟨1⟩ ⟨2⟩) 0).run
      [.other (.poll (EventLoop.onlyAt 0)), .recvfrom [1] 40] = some t ∧
      ¬ FindsFull t (.other (.push 0)) := by
  have hrun : ((machine .usual (fun _ => .combined ⟨1⟩ ⟨2⟩) 0).run
      ([.other (.poll (EventLoop.onlyAt 0)), .recvfrom [1] 40] ++ [.other (.push 0)])).map
        (fun s => s.bucket.lastTimeMs) = some 40 := by decide +kernel
  obtain ⟨s, hs, htime⟩ := Option.map_eq_some_iff.mp hrun
  obtain ⟨t, ht, -⟩ := Machine.exists_run_of_append hs
  refine ⟨t, ht, burst_absorbed Machine.Reachable.init hs ?_ _ _ (List.prefix_refl _) t ht⟩
  have htokens : toRat (start .usual 0).bucket.tokens ≤ 100 :=
    (DoubleBucket.filled_init 0).tokens_le
  rw [htime, State.load, perMillisecond]
  norm_num [records, pending, machine, start, EventLoop.start, Store.init, DoubleBucket.init,
    Action.reads, isRead] at htokens ⊢
  linarith

/-- The upload thread may stand still for eight seconds.  If the ring is empty and no local
client sends a record, no record of a datagram is dropped until the reference time has moved
by more than 8229 milliseconds. -/
theorem stall_absorbed {now : Int} {s s' : State} (hs : (machine sk parse now).Reachable s)
    (hempty : records s.loop = 0) {as : List Action}
    (hrun : (machine sk parse now).runFrom s as = some s')
    (hreads : (as.map Action.reads).sum = 0)
    (htime : s'.bucket.lastTimeMs ≤ s.bucket.lastTimeMs + 8229) :
    ∀ pre a, pre ++ [a] <+: as → ∀ t, (machine sk parse now).runFrom s pre = some t →
      ¬ FindsFull t a := by
  refine burst_absorbed hs hrun ?_
  have htokens := (filled_of_reachable hs).tokens_le
  have htime' : (s'.bucket.lastTimeMs : ℚ) ≤ s.bucket.lastTimeMs + 8229 := by exact_mod_cast htime
  rw [State.load, hempty, hreads, Nat.cast_zero, perMillisecond]
  linarith

end IotEdge.RateLimit
