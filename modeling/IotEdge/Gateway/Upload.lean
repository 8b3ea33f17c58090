import IotEdge.Gateway.QueueProtocol

/-!
# Where the records go

A record leaves the ring before the request that carries it is written, and the
batch is a local of the loop body.  `socket`, `connect` and `write` can each
fail.  The comment at the failed `connect` says "rest a while after the failure,
then try again", but the body is left by `continue` and the batch with it, so
there is nothing to try again with.

`NoLoss` says that every accepted record is in the ring, in the batch in
progress or in a request that was written.  `covered_step` is the exact
condition: a step keeps `NoLoss` unless it ends an iteration whose request was
not written (`EndsUnsent`).
-/

namespace IotEdge.CloudClient

variable {ι : Type} [DecidableEq ι]

/-- The batch holds record number `n`. -/
def Batch.Holds (b : Batch) (accepted : List IPCData) (n : Nat) : Prop :=
  ∃ k, k < b.records.length ∧ n = b.first + k ∧ b.records[k]? = accepted[n]?

/-- Record number `n` is still in the ring. -/
def State.InRing (s : State ι) (n : Nat) : Prop :=
  ∃ k, k < s.queue.occupancy ∧ n = s.popped.length + k ∧
    some (s.queue.dataQueue (Circular.index s.queue.queueTail k)) = s.accepted[n]?

/-- Record number `n` is in the batch of the iteration in progress. -/
def State.InBatch (s : State ι) (n : Nat) : Prop :=
  ∃ b, s.consumer.batch? = some b ∧ b.Holds s.accepted n

/-- Record number `n` was in a request whose `write` succeeded. -/
def State.InRequest (s : State ι) (n : Nat) : Prop :=
  ∃ b ∈ s.requests, b.Holds s.accepted n

/-- Every accepted record is in the ring, in the batch or in a written request. -/
def NoLoss (s : State ι) : Prop :=
  ∀ n, n < s.accepted.length → s.InRing n ∨ s.InBatch n ∨ s.InRequest n

/-- The step ends an iteration whose request was not written. -/
def EndsUnsent (s : State ι) : Action ι → Prop
  | .socket ok => ok = false
  | .connect ok => ok = false
  | .close => ∃ b, s.consumer = .atClose b false
  | _ => False

/-! ## The finished iterations -/

/-- The position up to which the fate of the popped records is decided: the
batch in progress is undecided until its `write` succeeds. -/
def ConsumerPc.settled (popped : List IPCData) : ConsumerPc → Nat
  | .atWait | .atLock | .atClose _ true => popped.length
  | .atPop b | .atTest b | .atUnlock b | .atSocket b | .atConnect b | .atWrite b
  | .atClose b false => b.first

/-- The batch covers position `n`. -/
def Batch.Covers (b : Batch) (n : Nat) : Prop :=
  b.first ≤ n ∧ n < b.first + b.records.length

/-- Every decided position was in a written request. -/
def Covered (s : State ι) : Prop :=
  ∀ n, n < s.consumer.settled s.popped → ∃ b ∈ s.requests, b.Covers n

/-- What holds of the written requests in every reachable state. -/
structure Sent (s : State ι) : Prop where
  /-- A request carries accepted records, at its positions. -/
  carries : ∀ b ∈ s.requests, b.records <+: s.accepted.drop b.first
  /-- Requests are decided. -/
  settled : ∀ b ∈ s.requests, b.first + b.records.length ≤ s.consumer.settled s.popped
  /-- A batch that was written is a request. -/
  written : ∀ b, s.consumer = .atClose b true → b ∈ s.requests

omit [DecidableEq ι] in
theorem sent_start : Sent (start ι) where
  carries := by simp [start]
  settled := by simp [start]
  written := by simp [start]

omit [DecidableEq ι] in
/-- The batch in progress carries accepted records. -/
theorem Inv.carries {s : State ι} (h : Inv s) {b : Batch} (hb : b.EndsAt s.popped) :
    b.records <+: s.accepted.drop b.first := by
  rw [h.contents, List.drop_append_of_le_length hb.1, hb.2]
  exact List.prefix_append _ _

theorem Sent.step {s s' : State ι} {a : Action ι} (hi : Inv s) (h : Sent s) (hs : Step s a s') :
    Sent s' := by
  have hbatch := hi.batch
  have hsettled := h.settled
  cases hs with
  | pushed _ _ _ =>
      refine ⟨fun b hb => ?_, hsettled, h.written⟩
      have hpre := h.carries b hb
      refine hpre.trans ?_
      exact (List.prefix_append _ _).drop _
  | refused _ => exact h
  | posted _ => exact ⟨h.carries, hsettled, h.written⟩
  | waited hc _ =>
      rw [hc] at hsettled
      exact ⟨h.carries, hsettled, by simp⟩
  | locked hc =>
      rw [hc] at hsettled
      exact ⟨h.carries, hsettled, by simp⟩
  | popped hc | token hc _ _ | noToken hc | unlocked hc | socketOk hc | connectOk hc
  | writeFailed hc =>
      rw [hc] at hsettled
      exact ⟨h.carries, hsettled, by simp⟩
  | socketFailed hc | connectFailed hc =>
      rw [hc] at hsettled hbatch
      refine ⟨h.carries, fun b hb => ?_, by simp⟩
      exact (hsettled b hb).trans hbatch.2.1
  | writeOk hc =>
      rw [hc] at hsettled hbatch
      refine ⟨fun b hb => ?_, fun b hb => ?_, fun b hb => ?_⟩
      · rcases List.mem_append.mp hb with hb | hb
        · exact h.carries b hb
        · rw [List.mem_singleton.mp hb]
          exact hi.carries hbatch.2
      · rcases List.mem_append.mp hb with hb | hb
        · exact (hsettled b hb).trans hbatch.2.1
        · rw [List.mem_singleton.mp hb]
          exact hbatch.2.length.le
      · cases hb
        simp
  | @closed b written hc =>
      rw [hc] at hsettled hbatch
      refine ⟨h.carries, fun r hr => ?_, by simp⟩
      cases written with
      | true => exact hsettled r hr
      | false => exact (hsettled r hr).trans hbatch.2.1

/-! ## `NoLoss` by positions -/

/-- A batch that carries accepted records holds the positions it covers. -/
theorem Batch.holds_iff {b : Batch} {accepted : List IPCData}
    (h : b.records <+: accepted.drop b.first) (n : Nat) : b.Holds accepted n ↔ b.Covers n := by
  constructor
  · rintro ⟨k, hk, rfl, -⟩
    exact ⟨Nat.le_add_right _ _, Nat.add_lt_add_left hk _⟩
  · rintro ⟨hle, hlt⟩
    have hk : n - b.first < b.records.length := by omega
    refine ⟨n - b.first, hk, by omega, ?_⟩
    rw [List.getElem?_eq_getElem hk, ← List.prefix_iff_getElem?.mp h _ hk, List.getElem?_drop,
      Nat.add_sub_cancel' hle]

omit [DecidableEq ι] in
theorem Inv.inRing_iff {s : State ι} (h : Inv s) (n : Nat) :
    s.InRing n ↔ s.popped.length ≤ n ∧ n < s.accepted.length := by
  have hlen : s.accepted.length = s.popped.length + s.queue.occupancy := by
    rw [h.contents, List.length_append, DataQueue.length_contents]
  constructor
  · rintro ⟨k, hk, rfl, -⟩
    omega
  · rintro ⟨hle, hlt⟩
    have hk : n - s.popped.length < s.queue.occupancy := by omega
    refine ⟨n - s.popped.length, hk, by omega, ?_⟩
    rw [h.contents, List.getElem?_append_right hle]
    exact (Circular.getElem?_window _ _ hk).symm

/-- The batch in progress is undecided, unless its request was just written. -/
theorem ConsumerPc.settled_cases (pc : ConsumerPc) (popped : List IPCData) :
    (pc.settled popped = popped.length ∧ ∀ b, pc.batch? = some b → pc = .atClose b true) ∨
      ∃ b, pc.batch? = some b ∧ pc.settled popped = b.first := by
  cases pc with
  | atWait => exact .inl ⟨rfl, by simp [batch?]⟩
  | atLock => exact .inl ⟨rfl, by simp [batch?]⟩
  | atClose b written =>
      cases written with
      | true => exact .inl ⟨rfl, by simp [batch?]⟩
      | false => exact .inr ⟨b, rfl, rfl⟩
  | _ => exact .inr ⟨_, rfl, rfl⟩

omit [DecidableEq ι] in
/-- A record is lost exactly when its position is decided and in no request. -/
theorem noLoss_iff_covered {s : State ι} (hi : Inv s) (h : Sent s) : NoLoss s ↔ Covered s := by
  have hlen : s.accepted.length = s.popped.length + s.queue.occupancy := by
    rw [hi.contents, List.length_append, DataQueue.length_contents]
  have hcases := s.consumer.settled_cases s.popped
  constructor
  · intro hno n hn
    have hle : s.consumer.settled s.popped ≤ s.popped.length := by
      rcases hcases with ⟨heq, -⟩ | ⟨b, hb, heq⟩
      · exact heq.le
      · exact heq ▸ (hi.batch.endsAt hb).1
    rcases hno n (by omega) with hring | ⟨b, hb, hh⟩ | ⟨b, hb, hh⟩
    · have := (hi.inRing_iff n).mp hring
      omega
    · have hcov := (Batch.holds_iff (hi.carries (hi.batch.endsAt hb)) n).mp hh
      rcases hcases with ⟨-, hw⟩ | ⟨b', hb', heq⟩
      · exact ⟨b, h.written b (hw b hb), hcov⟩
      · rw [hb, Option.some.injEq] at hb'
        subst hb'
        exact absurd hcov.1 (by omega)
    · exact ⟨b, hb, (Batch.holds_iff (h.carries b hb) n).mp hh⟩
  · intro hcov n hn
    by_cases hring : s.popped.length ≤ n
    · exact .inl ((hi.inRing_iff n).mpr ⟨hring, hn⟩)
    by_cases hset : n < s.consumer.settled s.popped
    · obtain ⟨b, hb, hbn⟩ := hcov n hset
      exact .inr (.inr ⟨b, hb, (Batch.holds_iff (h.carries b hb) n).mpr hbn⟩)
    rcases hcases with ⟨heq, -⟩ | ⟨b, hb, heq⟩
    · omega
    · have hend := hi.batch.endsAt hb
      have hblen := hend.length
      exact .inr (.inl ⟨b, hb, (Batch.holds_iff (hi.carries hend) n).mpr ⟨by omega, by omega⟩⟩)

/-! ## The exact condition -/

omit [DecidableEq ι] in
/-- If the decided positions now include a batch that is in no request, its
first record is lost. -/
theorem not_covered_of_batch {s : State ι} {b : Batch} (h : ∀ r ∈ s.requests,
      r.first + r.records.length ≤ b.first) (hb : b.first < s.consumer.settled s.popped) :
    ¬ Covered s := by
  intro hcov
  obtain ⟨r, hr, -, hlt⟩ := hcov b.first hb
  exact absurd (h r hr) (by omega)

/-- A step keeps the decided positions covered unless it ends an iteration whose
request was not written. -/
theorem covered_step {s s' : State ι} {a : Action ι} (hi : Inv s) (h : Sent s)
    (hcov : Covered s) (hs : Step s a s') : Covered s' ↔ ¬ EndsUnsent s a := by
  have hbatch := hi.batch
  have hsettled := h.settled
  rw [Covered] at hcov
  cases hs with
  | pushed _ _ _ | refused _ | posted _ => exact iff_of_true hcov id
  | waited hc _ | locked hc | popped hc | token hc _ _ | noToken hc | unlocked hc =>
      rw [hc] at hcov
      exact iff_of_true hcov id
  | socketOk hc | connectOk hc | writeFailed hc =>
      rw [hc] at hcov
      exact iff_of_true hcov (by simp [EndsUnsent])
  | socketFailed hc | connectFailed hc =>
      rw [hc] at hsettled hbatch
      refine iff_of_false (not_covered_of_batch hsettled ?_) (by simp [EndsUnsent])
      have hlen := hbatch.2.length
      have hpos := hbatch.1.1
      simp only [ConsumerPc.settled]
      omega
  | writeOk hc =>
      rw [hc] at hcov hbatch
      refine iff_of_true (fun n hn => ?_) (by simp [EndsUnsent])
      rename_i b
      by_cases hlt : n < b.first
      · obtain ⟨r, hr, hrn⟩ := hcov n hlt
        exact ⟨r, List.mem_append_left _ hr, hrn⟩
      · refine ⟨b, by simp, by omega, ?_⟩
        rw [hbatch.2.length]
        exact hn
  | @closed b written hc =>
      rw [hc] at hcov hsettled hbatch
      cases written with
      | true => exact iff_of_true hcov (by simp [EndsUnsent, hc])
      | false =>
          refine iff_of_false (not_covered_of_batch hsettled ?_) (by simp [EndsUnsent, hc])
          have hlen := hbatch.2.length
          have hpos := hbatch.1.1
          simp only [ConsumerPc.settled]
          omega

theorem invariants_of_reachable {s : State ι} (h : (machine ι).Reachable s) : Inv s ∧ Sent s :=
  h.invariant (I := fun s => Inv s ∧ Sent s) ⟨inv_start, sent_start⟩ fun hi hs =>
    ⟨hi.1.step (step_cases hs), hi.2.step hi.1 (step_cases hs)⟩

/-- Along every run, no record is lost exactly as long as no iteration ends with
its request unwritten. -/
theorem no_record_lost_iff {as : List (Action ι)} {s : State ι}
    (hrun : (machine ι).run as = some s) :
    (machine ι).Always as NoLoss ↔
      (machine ι).EachStep as fun s a => ¬ EndsUnsent s a := by
  refine Machine.always_iff_eachStep ?_ ?_ hrun
  · intro n hn
    exact absurd hn (Nat.not_lt_zero n)
  · intro s a s' hr hno hs
    obtain ⟨hi, hsent⟩ := invariants_of_reachable hr
    have hst := step_cases hs
    rw [noLoss_iff_covered hi hsent] at hno
    rw [noLoss_iff_covered (hi.step hst) (hsent.step hi hst)]
    exact covered_step hi hsent hno hst

/-- One record is pushed and taken, and `socket` fails. -/
def socketFails : List (Action Unit) :=
  [.push () (.single 7 ⟨1⟩), .post (), .semWait, .lock, .pop, .tryWait, .unlock, .socket false]

theorem no_record_lost_iff_socketFails : ¬ (machine Unit).Always socketFails NoLoss := by
  obtain ⟨s', hs'⟩ :=
    Option.isSome_iff_exists.mp (show ((machine Unit).run socketFails).isSome by decide)
  obtain ⟨s, hs⟩ :=
    Option.isSome_iff_exists.mp (show ((machine Unit).run socketFails.dropLast).isSome by decide)
  intro h
  exact (no_record_lost_iff hs').mp h socketFails.dropLast (.socket false)
    (List.prefix_refl _) s hs rfl

/-- After the failed `socket` the only record is nowhere. -/
theorem record_lost : ¬ ∀ s, (machine Unit).Reachable s → NoLoss s := by
  intro h
  have hrun : ((machine Unit).run socketFails).map (fun s =>
      (s.accepted.length, s.queue.occupancy, s.consumer, s.requests)) = some (1, 0, .atWait, []) := by
    decide
  obtain ⟨s, hs, hs'⟩ := Option.map_eq_some_iff.mp hrun
  obtain ⟨hacc, hocc, hcon, hreq⟩ : s.accepted.length = 1 ∧ s.queue.occupancy = 0 ∧
      s.consumer = .atWait ∧ s.requests = [] := by
    simpa only [Prod.mk.injEq] using hs'
  rcases h s ⟨_, hs⟩ 0 (by omega) with ⟨k, hk, -⟩ | ⟨b, hb, -⟩ | ⟨b, hb, -⟩
  · omega
  · rw [hcon] at hb
    cases hb
  · rw [hreq] at hb
    cases hb

end IotEdge.CloudClient
