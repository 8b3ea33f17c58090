import IotEdge.Gateway.UploadStream
import IotEdge.Gateway.EventLoop

/-!
# The event loop and the upload thread

The two threads of `main` that carry records share the ring, the semaphore and the
mutex.  The event loop pushes a record inside the mutex and posts when it has left it,
before it does anything else.  The upload thread takes the records.

`State` puts the two together.  It has one ring, and each thread sees its own part:
`simulates_loop` and `simulates_client` say that what it sees is a run of the model of the
thread on its own.

`delivers_in_order` is about the records that come to a push site, in the order they
come.  Those that are in a request, in the batch in progress or in the ring are some of
them, in this order and none twice.  They are all of them just as long as no push finds
the ring full and no iteration drops its batch.
-/

namespace IotEdge.Pipeline

open CloudClient (ConsumerPc Batch EndsUnsent)

/-- The event loop, the upload thread and what they share. -/
structure State where
  /-- The event loop, with the ring in its stores. -/
  loop : EventLoop.State
  /-- The value of `data_sem`. -/
  dataSem : Nat
  /-- The event loop has pushed a record and not yet posted. -/
  owes : Bool
  /-- The upload thread. -/
  consumer : ConsumerPc
  /-- The records popped so far, in order. -/
  popped : List IPCData
  /-- The batches whose `write` succeeded. -/
  requests : List Batch
  /-- The records that came to a push site so far, in order. -/
  offered : List IPCData

/-- The labels. -/
inductive Action where
  /-- The event loop, or a local client that writes. -/
  | loop (a : EventLoop.Action)
  /-- `sem_post` of the event loop. -/
  | post
  /-- The upload thread. -/
  | upload (a : CloudClient.Action Unit)

/-- What the upload thread sees.  The event loop is its one producer. -/
def State.client (s : State) : CloudClient.State Unit where
  queue := s.loop.store.queue
  dataSem := s.dataSem
  owes := if s.owes then {()} else ∅
  consumer := s.consumer
  accepted := s.loop.store.enqueued
  popped := s.popped
  requests := s.requests

/-- The state after a step of the upload thread. -/
def State.withClient (s : State) (c : CloudClient.State Unit) : State := { s with
  loop := { s.loop with store := { s.loop.store with queue := c.queue } }
  dataSem := c.dataSem
  consumer := c.consumer
  popped := c.popped
  requests := c.requests }

/-- The push site that a label of the event loop goes through. -/
def pushSite (s : EventLoop.State) : EventLoop.Action → Option PushSite
  | .push _ =>
      match s.pc with
      | .pushing _ (site :: _) => some site
      | _ => none
  | .read n stack =>
      match s.pc with
      | .scanning i => some (.ipc ((s.conns (s.fd i)).readData n stack))
      | _ => none
  | _ => none

/-- A label that is not one of the event loop itself. -/
def isWrite : EventLoop.Action → Bool
  | .send _ _ _ | .sendRaw _ _ => true
  | _ => false

/-- One step.  `queue_head` has moved when there was room, and then the event loop
posts next. -/
def step (sk : EventLoop.Sockets) (parse : List UInt8 → UdpMessage) (s : State) :
    Action → Option State
  | .loop .consume => none
  | .loop a =>
      if (isWrite a = true ∨ s.owes = false) ∧
          (pushSite s.loop a = none ∨ s.consumer.locked = false) then
        (EventLoop.step sk parse s.loop a).map fun loop => { s with
          loop := loop
          owes := s.owes || loop.store.queue.queueHead != s.loop.store.queue.queueHead
          offered := s.offered ++ ((pushSite s.loop a).map PushSite.record).toList }
      else none
  | .post =>
      if s.owes = true then some { s with owes := false, dataSem := s.dataSem + 1 } else none
  | .upload (.push _ _) | .upload (.post _) => none
  | .upload a => (CloudClient.step s.client a).map s.withClient

/-- The call of `start_event_loop`, and the upload thread at its start. -/
def start (sk : EventLoop.Sockets) : State where
  loop := EventLoop.start sk
  dataSem := 0
  owes := false
  consumer := .atWait
  popped := []
  requests := []
  offered := []

/-- The two threads on the sockets `sk`, with datagrams read by `parse`. -/
def machine (sk : EventLoop.Sockets) (parse : List UInt8 → UdpMessage) : Machine State Action :=
  ⟨start sk, step sk parse⟩

variable {sk : EventLoop.Sockets} {parse : List UInt8 → UdpMessage}

/-! ## The transitions -/

/-- A label without a push site leaves the stores alone. -/
theorem store_of_pushSite_eq_none {s s' : EventLoop.State} {a : EventLoop.Action}
    (hs : EventLoop.Step sk parse s a s') (ha : a ≠ .consume) (hsite : pushSite s a = none) :
    s'.store = s.store := by
  cases hs with
  | pushed hpc => simp [pushSite, hpc] at hsite
  | read hpc => simp [pushSite, hpc] at hsite
  | consumed => exact absurd rfl ha
  | _ => rfl

/-- A label with a push site pushes its record if there is room. -/
theorem store_of_pushSite_eq_some {s s' : EventLoop.State} {a : EventLoop.Action}
    {site : PushSite} (hs : EventLoop.Step sk parse s a s') (hsite : pushSite s a = some site) :
    (∃ queue, s.store.queue.push site.record = some queue ∧ s'.store.queue = queue ∧
        s'.store.enqueued = s.store.enqueued ++ [site.record]) ∨
      (s.store.queue.push site.record = none ∧ s'.store = s.store) := by
  cases hs with
  | @pushed next site' sites now hpc =>
      simp only [pushSite, hpc, Option.some.injEq] at hsite
      subst hsite
      cases hpush : s.store.queue.push site'.record with
      | some queue =>
          refine .inl ⟨queue, rfl, ?_, ?_⟩ <;> simp [Store.pushUdp, Store.push, hpush]
      | none => exact .inr ⟨rfl, by simp [Store.pushUdp, Store.push, hpush]⟩
  | @read i n stack store hpc _ _ _ _ hpush =>
      simp only [pushSite, hpc, Option.some.injEq] at hsite
      subst hsite
      obtain ⟨queue, hqueue, rfl⟩ := Option.map_eq_some_iff.mp hpush
      exact .inl ⟨queue, hqueue, rfl, rfl⟩
  | @dropped i n stack hpc _ _ _ _ hpush =>
      simp only [pushSite, hpc, Option.some.injEq] at hsite
      subst hsite
      exact .inr ⟨Option.map_eq_none_iff.mp hpush, rfl⟩
  | _ => cases hsite

/-- A push moves `queue_head`. -/
theorem queueHead_of_push {q q' : DataQueue} {data : IPCData} (h : q.push data = some q') :
    (q'.queueHead != q.queueHead) = true := by
  simp only [DataQueue.push] at h
  split at h
  next =>
    cases h
    rw [bne_iff_ne]
    have hone : (1 : Fin maxQueueSize) ≠ 0 := by decide
    exact fun heq => hone (add_eq_left.mp heq)
  next => cases h

/-- The transitions of `step`. -/
inductive Step (sk : EventLoop.Sockets) (parse : List UInt8 → UdpMessage) (s : State) :
    Action → State → Prop where
  /-- The event loop does something that is not a push. -/
  | moved {a : EventLoop.Action} {loop : EventLoop.State} :
      EventLoop.step sk parse s.loop a = some loop → pushSite s.loop a = none →
      loop.store = s.loop.store → Step sk parse s (.loop a) { s with loop := loop }
  /-- It pushes a record. -/
  | pushed {a : EventLoop.Action} {loop : EventLoop.State} {site : PushSite} :
      EventLoop.step sk parse s.loop a = some loop → pushSite s.loop a = some site →
      s.owes = false → s.consumer.locked = false →
      s.loop.store.queue.push site.record = some loop.store.queue →
      loop.store.enqueued = s.loop.store.enqueued ++ [site.record] →
      Step sk parse s (.loop a) { s with
        loop := loop, owes := true, offered := s.offered ++ [site.record] }
  /-- It finds the ring full. -/
  | refused {a : EventLoop.Action} {loop : EventLoop.State} {site : PushSite} :
      EventLoop.step sk parse s.loop a = some loop → pushSite s.loop a = some site →
      s.loop.store.queue.push site.record = none → loop.store = s.loop.store →
      Step sk parse s (.loop a) { s with loop := loop, offered := s.offered ++ [site.record] }
  | posted :
      s.owes = true → Step sk parse s .post { s with owes := false, dataSem := s.dataSem + 1 }
  | uploaded {a : CloudClient.Action Unit} {c : CloudClient.State Unit} :
      (∀ p site, a ≠ .push p site) → (∀ p, a ≠ .post p) → CloudClient.step s.client a = some c →
      Step sk parse s (.upload a) (s.withClient c)

theorem step_loop {s s' : State} {a : EventLoop.Action}
    (h : step sk parse s (.loop a) = some s') : a ≠ .consume ∧
      (isWrite a = true ∨ s.owes = false) ∧
      (pushSite s.loop a = none ∨ s.consumer.locked = false) ∧
      ∃ loop, EventLoop.step sk parse s.loop a = some loop ∧ s' = { s with
        loop := loop
        owes := s.owes || loop.store.queue.queueHead != s.loop.store.queue.queueHead
        offered := s.offered ++ ((pushSite s.loop a).map PushSite.record).toList } := by
  have hne : a ≠ .consume := by
    rintro rfl
    cases h
  have hstep : step sk parse s (.loop a) =
      if (isWrite a = true ∨ s.owes = false) ∧
          (pushSite s.loop a = none ∨ s.consumer.locked = false) then
        (EventLoop.step sk parse s.loop a).map fun loop => { s with
          loop := loop
          owes := s.owes || loop.store.queue.queueHead != s.loop.store.queue.queueHead
          offered := s.offered ++ ((pushSite s.loop a).map PushSite.record).toList }
      else none := by
    cases a with
    | consume => exact absurd rfl hne
    | _ => rfl
  rw [hstep] at h
  split at h
  next hfree =>
    obtain ⟨loop, hloop, rfl⟩ := Option.map_eq_some_iff.mp h
    exact ⟨hne, hfree.1, hfree.2, loop, hloop, rfl⟩
  next => cases h

/-- Every step is one of the transitions. -/
theorem step_cases {s s' : State} {a : Action} (h : step sk parse s a = some s') :
    Step sk parse s a s' := by
  cases a with
  | loop a =>
      obtain ⟨hne, howes, hlocked, loop, hloop, rfl⟩ := step_loop h
      have hstep := EventLoop.step_cases hloop
      cases hsite : pushSite s.loop a with
      | none =>
          have hstore := store_of_pushSite_eq_none hstep hne hsite
          have hsame : (loop.store.queue.queueHead != s.loop.store.queue.queueHead) = false := by
            rw [hstore, bne_self_eq_false]
          rw [hsame, Bool.or_false, Option.map_none, Option.toList_none, List.append_nil]
          exact .moved hloop hsite hstore
      | some site =>
          have hown : isWrite a = false := by
            cases a with
            | send | sendRaw => cases hsite
            | _ => rfl
          have howes : s.owes = false := howes.resolve_left (by simp [hown])
          have hlocked := hlocked.resolve_left (by simp [hsite])
          rcases store_of_pushSite_eq_some hstep hsite with ⟨queue, hpush, rfl, henq⟩ | ⟨hfull, hstore⟩
          · rw [queueHead_of_push hpush, Bool.or_true]
            exact .pushed hloop hsite howes hlocked hpush henq
          · have hsame : (loop.store.queue.queueHead != s.loop.store.queue.queueHead) = false := by
              rw [hstore, bne_self_eq_false]
            rw [hsame, Bool.or_false]
            exact .refused hloop hsite hfull hstore
  | post =>
      simp only [step] at h
      split at h
      next howes => cases h; exact .posted howes
      next => cases h
  | upload a =>
      cases a with
      | push p site => cases h
      | post p => cases h
      | _ =>
          obtain ⟨c, hc, rfl⟩ := Option.map_eq_some_iff.mp h
          exact .uploaded (by simp) (by simp) hc

/-! ## The two threads -/

/-- The upload thread does not touch what belongs to its producers. -/
theorem owes_accepted_of_upload {t c : CloudClient.State Unit} {a : CloudClient.Action Unit}
    (hpush : ∀ p site, a ≠ .push p site) (hpost : ∀ p, a ≠ .post p)
    (hs : CloudClient.Step t a c) : c.owes = t.owes ∧ c.accepted = t.accepted := by
  cases hs with
  | pushed | refused => exact absurd rfl (hpush _ _)
  | posted => exact absurd rfl (hpost _)
  | _ => exact ⟨rfl, rfl⟩

theorem client_withClient {s : State} {c : CloudClient.State Unit}
    (howes : c.owes = s.client.owes) (haccepted : c.accepted = s.client.accepted) :
    (s.withClient c).client = c := by
  cases c
  simp only at howes haccepted
  subst howes haccepted
  rfl

/-- What the upload thread sees of a step. -/
theorem Step.client {s s' : State} {a : Action} (hs : Step sk parse s a s') :
    s'.client = s.client ∨ ∃ b, CloudClient.step s.client b = some s'.client := by
  cases hs with
  | moved _ _ hstore =>
      refine .inl ?_
      simp only [State.client, hstore]
  | @pushed a loop site _ _ howes hlocked hpush henq =>
      refine .inr ⟨.push () site, ?_⟩
      have hfree : () ∉ s.client.owes ∧ s.client.consumer.locked = false := by
        simp only [State.client, howes]
        exact ⟨Finset.notMem_empty (), hlocked⟩
      have hqueue : s.client.queue.push site.record = some loop.store.queue := hpush
      simp only [CloudClient.step]
      rw [if_pos hfree, hqueue]
      simp only [State.client, howes, henq, Option.some.injEq]
      rfl
  | refused _ _ _ hstore =>
      refine .inl ?_
      simp only [State.client, hstore]
  | posted howes =>
      refine .inr ⟨.post (), ?_⟩
      have hmem : () ∈ s.client.owes := by
        simp only [State.client, howes]
        exact Finset.mem_singleton_self ()
      simp only [CloudClient.step]
      rw [if_pos hmem]
      simp only [State.client, howes]
      rfl
  | @uploaded a c hpush hpost hc =>
      obtain ⟨howes, haccepted⟩ := owes_accepted_of_upload hpush hpost (CloudClient.step_cases hc)
      refine .inr ⟨a, ?_⟩
      rw [client_withClient howes haccepted]
      exact hc

theorem simulates_client :
    Machine.Simulates (machine sk parse) (CloudClient.machine Unit) State.client where
  init := rfl
  step _ h := (step_cases h).client

theorem client_reachable {s : State} (h : (machine sk parse).Reachable s) :
    (CloudClient.machine Unit).Reachable s.client :=
  simulates_client.reachable h

/-- A `pop` of the upload thread is the label `consume` of the event loop. -/
theorem loop_withClient {s : State} {a : CloudClient.Action Unit} {c : CloudClient.State Unit}
    (h : CloudClient.Inv s.client) (hpush : ∀ p site, a ≠ .push p site)
    (hs : CloudClient.Step s.client a c) : (s.withClient c).loop = s.loop ∨
      EventLoop.step sk parse s.loop .consume = some (s.withClient c).loop := by
  cases hs with
  | pushed | refused => exact absurd rfl (hpush _ _)
  | popped hc =>
      have hocc : 0 < s.loop.store.queue.occupancy := by
        have hfront := (h.front hc).2
        simp only [State.client] at hfront
        omega
      refine .inr ?_
      simp only [EventLoop.step]
      rw [if_pos hocc]
      rfl
  | _ => exact .inl rfl

/-- What the event loop sees is a run of its own model. -/
theorem simulates_loop :
    Machine.Simulates (machine sk parse) (EventLoop.machine sk parse) State.loop where
  init := rfl
  step hr h := by
    cases step_cases h with
    | moved hloop | pushed hloop | refused hloop => exact .inr ⟨_, hloop⟩
    | posted => exact .inl rfl
    | uploaded hpush _ hc =>
        have hinv := CloudClient.Inv.of_reachable (client_reachable hr)
        exact (@loop_withClient sk parse _ _ _ hinv hpush (CloudClient.step_cases hc)).imp_right
          fun h => ⟨.consume, h⟩

/-! ## Where the records go -/

/-- The written records, those of the batch in progress, and those in the ring. -/
def State.stream (s : State) : List IPCData := s.client.stream

/-- The step drops a batch, or finds the ring full. -/
def Loses (s : State) : Action → Prop
  | .loop a => pushSite s.loop a ≠ none ∧ s.loop.store.queue.occupancy = 1023
  | .post => False
  | .upload a => EndsUnsent s.client a

/-- What a step offers is what it adds to the stream, unless the step loses something. -/
theorem Step.stream {s s' : State} {a : Action} (h : CloudClient.Inv s.client)
    (hs : Step sk parse s a s') : ∃ new, s'.offered = s.offered ++ new ∧
      s'.stream.Sublist (s.stream ++ new) ∧ (s'.stream = s.stream ++ new ↔ ¬ Loses s a) := by
  have hkept : ∀ {new}, s'.stream = s.stream ++ new → ¬ Loses s a →
      s'.stream.Sublist (s.stream ++ new) ∧ (s'.stream = s.stream ++ new ↔ ¬ Loses s a) :=
    fun heq hno => ⟨heq ▸ List.Sublist.refl _, iff_of_true heq hno⟩
  have hlost : ∀ {new}, s'.stream.Sublist (s.stream ++ new) →
      s'.stream.length < (s.stream ++ new).length → Loses s a →
      s'.stream.Sublist (s.stream ++ new) ∧ (s'.stream = s.stream ++ new ↔ ¬ Loses s a) :=
    fun hsub hlen hloses =>
      ⟨hsub, iff_of_false (fun heq => (heq ▸ hlen).false) (not_not_intro hloses)⟩
  cases hs with
  | moved _ hsite hstore =>
      refine ⟨[], (List.append_nil _).symm, hkept ?_ fun hloses => hloses.1 hsite⟩
      simp only [State.stream, State.client, hstore, List.append_nil]
  | @pushed a loop site _ hsite _ _ hpush henq =>
      refine ⟨[site.record], rfl, hkept ?_ fun hloses => ?_⟩
      · simp only [State.stream, CloudClient.State.stream, CloudClient.State.uploaded, State.client,
          (DataQueue.push_eq_some hpush).1, List.append_assoc]
      · rw [DataQueue.push_eq_none_iff.mpr hloses.2] at hpush
        cases hpush
  | @refused a loop site _ hsite hpush hstore =>
      have hstream : State.stream { s with
          loop := loop, offered := s.offered ++ [site.record] } = s.stream := by
        simp only [State.stream, State.client, hstore]
      refine ⟨[site.record], rfl, hlost ?_ ?_ ⟨by simp [hsite], DataQueue.push_eq_none_iff.mp hpush⟩⟩
      · rw [hstream]
        exact List.sublist_append_left _ _
      · rw [hstream, List.length_append]
        exact Nat.lt_succ_self _
  | posted =>
      exact ⟨[], (List.append_nil _).symm, hkept (List.append_nil _).symm id⟩
  | @uploaded a c hpush hpost hc =>
      have hstep := CloudClient.step_cases hc
      obtain ⟨howes, haccepted⟩ := owes_accepted_of_upload hpush hpost hstep
      have hclient : (s.withClient c).stream = c.stream := by
        rw [State.stream, client_withClient howes haccepted]
      refine ⟨[], (List.append_nil _).symm, ?_⟩
      rcases em (EndsUnsent s.client a) with hends | hends
      · obtain ⟨hstream, hunsent, -⟩ := hstep.stream_of_endsUnsent h hends
        refine hlost ?_ ?_ hends
        · rw [hclient, hstream, List.append_nil]
          exact (List.append_sublist_append_left _).mpr (List.sublist_append_right _ _)
        · have hpos := List.length_pos_iff.mpr hunsent
          rw [hclient, hstream]
          simp only [State.stream, CloudClient.State.stream, List.length_append]
          omega
      · have hadded : s.client.added a = [] := by
          cases a with
          | push p site => exact absurd rfl (hpush p site)
          | _ => rfl
        have hstream := hstep.stream_eq h hends
        rw [hadded] at hstream
        exact hkept (hclient.trans hstream) hends

theorem inv_of_reachable {s : State} (h : (machine sk parse).Reachable s) :
    CloudClient.Inv s.client :=
  CloudClient.Inv.of_reachable (client_reachable h)

/-- Every record is in the stream at most once, in the order of the offers. -/
theorem stream_sublist {s : State} (h : (machine sk parse).Reachable s) :
    s.stream.Sublist s.offered := by
  obtain ⟨as, has⟩ := h
  induction as using List.reverseRecOn generalizing s with
  | nil =>
      cases has
      exact List.Sublist.refl _
  | append_singleton as a ih =>
      obtain ⟨t, ht, hta⟩ := Machine.run_concat_eq_some.mp has
      have hsub := ih ht
      obtain ⟨new, hoffered, hsub', -⟩ := (step_cases hta).stream (inv_of_reachable ⟨as, ht⟩)
      rw [hoffered]
      exact hsub'.trans ((List.append_sublist_append_right _).mpr hsub)

/-- Along any run of the two threads, the records of the written requests, of the batch in
progress and of the ring are records that came to a push site, in the order they came and
none twice.  They are all of them just as long as no push finds the ring full and no
iteration ends with its request unwritten. -/
theorem delivers_in_order {as : List Action} {s : State}
    (hrun : (machine sk parse).run as = some s) :
    s.stream.Sublist s.offered ∧
      ((machine sk parse).Always as (fun s => s.stream = s.offered) ↔
        (machine sk parse).EachStep as fun s a => ¬ Loses s a) := by
  refine ⟨stream_sublist ⟨as, hrun⟩, ?_⟩
  refine Machine.always_iff_eachStep (m := machine sk parse) (P := fun s => s.stream = s.offered)
    rfl (fun hr heq hs => ?_) hrun
  obtain ⟨new, hoffered, -, hiff⟩ := (step_cases hs).stream (inv_of_reachable hr)
  rw [hoffered, ← heq]
  exact hiff

/-- A datagram with one record, up to the request that carries it. -/
def oneRequest : List Action :=
  [.loop (.poll (EventLoop.onlyAt 0)), .loop (.recvfrom [1] true), .loop (.push 0), .post,
    .upload .semWait, .upload .lock, .upload .pop, .loop .leave, .upload .tryWait,
    .upload .unlock, .upload (.socket true), .upload (.connect true), .upload (.write true)]

theorem delivers_in_order_oneRequest :
    ∃ s, (machine .usual fun _ => .single 7 ⟨1⟩).run oneRequest = some s ∧
      s.stream.Sublist s.offered ∧ s.requests ≠ [] := by
  have hrun : ((machine .usual fun _ => .single 7 ⟨1⟩).run oneRequest).map (fun s => s.requests) =
      some [⟨0, [⟨7, ⟨1⟩⟩]⟩] := by decide
  obtain ⟨s, hs, hrequests⟩ := Option.map_eq_some_iff.mp hrun
  exact ⟨s, hs, (delivers_in_order hs).1, by rw [hrequests]; exact List.cons_ne_nil _ _⟩

end IotEdge.Pipeline
