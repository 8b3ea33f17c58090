import IotEdge.Gateway.Upload

/-!
# The stream of the upload thread

Put together, the written requests, the batch in progress and the ring are one list
(`State.stream`).  A step adds the record that it pushes at the end, and it takes
nothing away unless it drops a batch (`Step.stream_eq`, `Step.stream_of_endsUnsent`).

The last part is about the upload thread alone, with a network that works.  Each of
its steps lowers `State.work`, and it can always make one until everything is in a
request (`drains`).
-/

namespace IotEdge.CloudClient

/-- The records of the batch in progress, until its `write` succeeds. -/
def ConsumerPc.unsent : ConsumerPc → List IPCData
  | .atWait | .atLock | .atClose _ true => []
  | .atPop b | .atTest b | .atUnlock b | .atSocket b | .atConnect b | .atWrite b
  | .atClose b false => b.records

variable {ι : Type} [DecidableEq ι]

/-- The records in the written requests, in order. -/
def State.uploaded (s : State ι) : List IPCData := s.requests.flatMap Batch.records

/-- The written records, those of the batch in progress, and those in the ring. -/
def State.stream (s : State ι) : List IPCData :=
  s.uploaded ++ (s.consumer.unsent ++ s.queue.contents)

/-- The record that a step adds. -/
def State.added (s : State ι) : Action ι → List IPCData
  | .push _ site => if s.queue.occupancy = 1023 then [] else [site.record]
  | _ => []

/-! ## Steps -/

/-- A step that drops no batch adds its record at the end. -/
theorem Step.stream_eq {s s' : State ι} {a : Action ι} (h : Inv s) (hs : Step s a s')
    (hends : ¬ EndsUnsent s a) : s'.stream = s.stream ++ s.added a := by
  cases hs with
  | @pushed p site q _ _ hq =>
      have hroom : s.queue.occupancy ≠ 1023 := by
        intro hfull
        rw [DataQueue.push_eq_none_iff.mpr hfull] at hq
        cases hq
      simp only [State.stream, State.uploaded, State.added, if_neg hroom,
        (DataQueue.push_eq_some hq).1, List.append_assoc]
  | refused hq =>
      rw [State.added, if_pos (DataQueue.push_eq_none_iff.mp hq), List.append_nil]
  | popped hc =>
      have hfront := (h.front hc).1
      simp only [State.stream, State.uploaded, State.added, hc, ConsumerPc.unsent, hfront,
        List.append_assoc, List.singleton_append, List.append_nil]
  | writeOk hc =>
      simp only [State.stream, State.uploaded, State.added, hc, ConsumerPc.unsent,
        List.flatMap_append, List.flatMap_cons, List.flatMap_nil, List.append_assoc,
        List.append_nil, List.nil_append]
  | socketFailed | connectFailed => exact absurd rfl hends
  | @closed b written hc =>
      cases written with
      | true => simp only [State.stream, State.uploaded, State.added, hc, ConsumerPc.unsent,
          List.append_nil]
      | false => exact absurd ⟨b, hc⟩ hends
  | posted _ => exact (List.append_nil _).symm
  | waited hc _ | locked hc | token hc _ _ | noToken hc | unlocked hc | socketOk hc | connectOk hc
  | writeFailed hc =>
      simp only [State.stream, State.uploaded, State.added, hc, ConsumerPc.unsent,
        List.append_nil]

/-- A step that ends an iteration with its request unwritten drops the batch. -/
theorem Step.stream_of_endsUnsent {s s' : State ι} {a : Action ι} (h : Inv s) (hs : Step s a s')
    (hends : EndsUnsent s a) : s'.stream = s.uploaded ++ s.queue.contents ∧
      s.consumer.unsent ≠ [] ∧ s.added a = [] := by
  have hbatch := h.batch
  cases hs with
  | socketFailed hc | connectFailed hc =>
      rw [hc] at hbatch
      exact ⟨rfl, hc ▸ List.ne_nil_of_length_pos hbatch.1.1, rfl⟩
  | @closed b written hc =>
      rw [hc] at hbatch
      obtain ⟨b', hb'⟩ := hends
      rw [hc, ConsumerPc.atClose.injEq] at hb'
      obtain ⟨rfl, rfl⟩ := hb'
      exact ⟨rfl, hc ▸ List.ne_nil_of_length_pos hbatch.1.1, rfl⟩
  | socketOk | connectOk => exact absurd hends Bool.true_eq_false_eq_False
  | _ => exact hends.elim

/-- The sizes of the written batches. -/
def Sized (s : State ι) : Prop :=
  ∀ b ∈ s.requests, 0 < b.records.length ∧ b.records.length ≤ batchSize

theorem Step.sized {s s' : State ι} {a : Action ι} (hi : Inv s) (h : Sized s)
    (hs : Step s a s') : Sized s' := by
  cases hs with
  | @writeOk b hc =>
      have hbatch := hi.batch
      rw [hc] at hbatch
      exact List.forall_mem_append.mpr ⟨h, List.forall_mem_singleton.mpr hbatch.1⟩
  | _ => exact h

theorem sized_of_reachable {s : State ι} (h : (machine ι).Reachable s) : Sized s :=
  (h.invariant (I := fun s => Inv s ∧ Sized s) ⟨inv_start, fun _ hb => absurd hb List.not_mem_nil⟩
    fun hi hs => ⟨hi.1.step (step_cases hs), (step_cases hs).sized hi.1 hi.2⟩).2

/-! ## The upload thread alone -/

/-- A label of the upload thread, with a call that succeeds. -/
def Works : Action ι → Prop
  | .push _ _ | .post _ => False
  | .socket ok | .connect ok | .write ok => ok = true
  | _ => True

/-- The steps that are left in an iteration, at least. -/
def ConsumerPc.left : ConsumerPc → Nat
  | .atWait => 0
  | .atLock => 8
  | .atPop _ => 7
  | .atTest _ => 6
  | .atUnlock _ => 5
  | .atSocket _ => 4
  | .atConnect _ => 3
  | .atWrite _ => 2
  | .atClose _ _ => 1

/-- The most steps that the upload thread can make on its own.  A record takes a whole
iteration at worst. -/
def State.work (s : State ι) : Nat := 9 * s.dataSem + s.consumer.left

/-- A state from which the upload thread loses nothing on its own. -/
structure Draining (s : State ι) : Prop where
  /-- The counts agree. -/
  inv : Inv s
  /-- No producer is between its push and its post. -/
  posted : s.owes = ∅
  /-- The last `write` did not fail. -/
  written : ∀ b, s.consumer ≠ .atClose b false

/-- A step of the upload thread is one less, and it loses nothing. -/
theorem Draining.step {s s' : State ι} {a : Action ι} (h : Draining s) (ha : Works a)
    (hs : Step s a s') : Draining s' ∧ s'.work < s.work ∧ s'.stream = s.stream := by
  have hends : ¬ EndsUnsent s a := by
    intro hends
    cases a with
    | socket ok | connect ok => exact absurd (ha.symm.trans hends) (by decide)
    | close =>
        obtain ⟨b, hb⟩ := hends
        exact h.written b hb
    | _ => exact hends
  have hstream := hs.stream_eq h.inv hends
  have hinv := h.inv.step hs
  cases hs with
  | pushed | refused | posted => exact ha.elim
  | waited hc hn =>
      refine ⟨⟨hinv, h.posted, by simp⟩, ?_, hstream.trans (List.append_nil _)⟩
      simp only [State.work, hc, hn, ConsumerPc.left]
      omega
  | token hc _ hpos =>
      refine ⟨⟨hinv, h.posted, by simp⟩, ?_, hstream.trans (List.append_nil _)⟩
      simp only [State.work, hc, ConsumerPc.left]
      omega
  | locked hc | popped hc | noToken hc | unlocked hc | socketOk hc | connectOk hc | writeOk hc
  | closed hc =>
      refine ⟨⟨hinv, h.posted, by simp⟩, ?_, hstream.trans (List.append_nil _)⟩
      simp only [State.work, hc, ConsumerPc.left]
      omega
  | socketFailed | connectFailed | writeFailed => exact absurd ha Bool.false_ne_true

/-- The upload thread stops only at `sem_wait`, when there is no token. -/
theorem exists_works {s : State ι} (h : s.work ≠ 0) :
    ∃ a, Works a ∧ (CloudClient.step s a).isSome = true := by
  cases hc : s.consumer with
  | atWait =>
      cases hn : s.dataSem with
      | zero => exact absurd (by simp [State.work, hc, hn, ConsumerPc.left]) h
      | succ n => exact ⟨.semWait, trivial, by rw [CloudClient.step, hc, hn]; rfl⟩
  | atLock => exact ⟨.lock, trivial, by rw [CloudClient.step, hc]; rfl⟩
  | atPop b => exact ⟨.pop, trivial, by rw [CloudClient.step, hc]; rfl⟩
  | atTest b =>
      refine ⟨.tryWait, trivial, ?_⟩
      rw [CloudClient.step, hc]
      dsimp only
      split <;> rfl
  | atUnlock b => exact ⟨.unlock, trivial, by rw [CloudClient.step, hc]; rfl⟩
  | atSocket b => exact ⟨.socket true, rfl, by rw [CloudClient.step, hc]; rfl⟩
  | atConnect b => exact ⟨.connect true, rfl, by rw [CloudClient.step, hc]; rfl⟩
  | atWrite b => exact ⟨.write true, rfl, by rw [CloudClient.step, hc]; rfl⟩
  | atClose b written => exact ⟨.close, trivial, by rw [CloudClient.step, hc]; rfl⟩

/-- Whatever the thread did already, it gets everything into a request. -/
theorem Draining.exists_run {s : State ι} (h : Draining s) : ∃ as s',
    (∀ a ∈ as, Works a) ∧ (machine ι).runFrom s as = some s' ∧ s'.consumer = .atWait ∧
      s'.queue.occupancy = 0 ∧ s'.uploaded = s.stream := by
  induction hn : s.work using Nat.strong_induction_on generalizing s with
  | _ n ih =>
      subst hn
      rcases eq_or_ne s.work 0 with hzero | hne
      · have hcount := h.inv.count
        have hconsumer : s.consumer = .atWait := by
          cases hc : s.consumer with
          | atWait => rfl
          | _ => simp [State.work, hc, ConsumerPc.left] at hzero
        have hsem : s.dataSem = 0 := by
          rw [State.work] at hzero
          omega
        rw [h.posted, hconsumer, hsem] at hcount
        have hempty : s.queue.contents = [] :=
          List.length_eq_zero_iff.mp ((DataQueue.length_contents _).trans hcount)
        refine ⟨[], s, List.forall_mem_nil _, rfl, hconsumer, hcount, ?_⟩
        rw [State.stream, hconsumer, hempty]
        exact (List.append_nil _).symm
      · obtain ⟨a, ha, hsome⟩ := exists_works hne
        obtain ⟨t, hat⟩ := Option.isSome_iff_exists.mp hsome
        obtain ⟨ht, hless, hstream⟩ := h.step ha (step_cases hat)
        obtain ⟨as, s', has, hrun, hend⟩ := ih t.work hless ht rfl
        refine ⟨a :: as, s', List.forall_mem_cons.mpr ⟨ha, has⟩, ?_, hstream ▸ hend⟩
        exact Machine.runFrom_cons_eq_some.mpr ⟨t, hat, hrun⟩

/-- With a network that works, the upload thread needs no one else.  From every reachable
state where no post is owed and the last `write` did not fail, it makes at most `work`
steps, and whatever steps it has made, it can go on until the ring is empty and everything
that was in the stream is in a request, in order. -/
theorem drains {s : State ι} (hs : (machine ι).Reachable s) (howes : s.owes = ∅)
    (hwritten : ∀ b, s.consumer ≠ .atClose b false) {as : List (Action ι)} {t : State ι}
    (has : ∀ a ∈ as, Works a) (hrun : (machine ι).runFrom s as = some t) :
    as.length ≤ s.work ∧ ∃ bs u, (∀ b ∈ bs, Works b) ∧ (machine ι).runFrom t bs = some u ∧
      u.consumer = .atWait ∧ u.queue.occupancy = 0 ∧ u.uploaded = s.stream := by
  have hdraining : Draining s := ⟨Inv.of_reachable hs, howes, hwritten⟩
  clear hs howes hwritten
  induction as generalizing s with
  | nil =>
      cases hrun
      exact ⟨Nat.zero_le _, hdraining.exists_run⟩
  | cons a as ih =>
      obtain ⟨s₁, ha, hrest⟩ := Machine.runFrom_cons_eq_some.mp hrun
      obtain ⟨hworks, has⟩ := List.forall_mem_cons.mp has
      obtain ⟨hdraining₁, hless, hstream⟩ := hdraining.step hworks (step_cases ha)
      obtain ⟨hlen, hend⟩ := ih has hrest hdraining₁
      exact ⟨Nat.succ_le_of_lt (hlen.trans_lt hless), hstream ▸ hend⟩

/-- A record was pushed and posted. -/
theorem drains_one : ∃ s, (machine Unit).run [.push () (.single 7 ⟨1⟩), .post ()] = some s ∧
    ∃ bs u, (machine Unit).runFrom s bs = some u ∧ u.uploaded = s.stream := by
  obtain ⟨s, hs⟩ := Option.isSome_iff_exists.mp (show ((machine Unit).run
    [.push () (.single 7 ⟨1⟩), .post ()]).isSome by decide)
  have hshape : ((machine Unit).run [.push () (.single 7 ⟨1⟩), .post ()]).map (fun s =>
      (s.owes, s.consumer)) = some (∅, .atWait) := by decide
  rw [hs, Option.map_some, Option.some.injEq, Prod.mk.injEq] at hshape
  obtain ⟨-, bs, u, -, hrun, -, -, hup⟩ := drains ⟨_, hs⟩ hshape.1 (fun b hb => by
    rw [hshape.2] at hb
    cases hb) (List.forall_mem_nil _) rfl
  exact ⟨s, hs, bs, u, hrun, hup⟩

end IotEdge.CloudClient
