import IotEdge.Monitor.MqttConnection

/-!
# Packet identifiers

A SUBSCRIBE, and a PUBLISH that is acknowledged, carry an identifier that is not zero and that
no packet under way has.  `unusedPacketIdentifier` looks for one: it counts up from the last
identifier, from 65535 on to 1, and gives up when it is back where it began.

`unusedPacketIdentifier_spec` is what that comes to: the identifier is in use only if all of them
are.  The search is one turn around a circle, and the induction is on what is left of the turn.
`sends_keep_pending` draws the conclusion: as long as one identifier is free, no packet that is
sent takes the place of another in the tables of those under way.
-/

namespace IotEdge.Mqtt

open Monitor

namespace State

variable {s : State}

/-- On the way up from `counter` to `last`, wrapping behind 65535. -/
def Between (counter i last : UInt16) : Prop :=
  if counter.toNat < last.toNat then counter.toNat < i.toNat ∧ i.toNat < last.toNat
  else counter.toNat < i.toNat ∨ i.toNat < last.toNat

/-- What is left of the turn. -/
def Left (counter last : UInt16) (fuel : Nat) : Prop :=
  if counter.toNat < last.toNat then fuel + counter.toNat = last.toNat
  else fuel + counter.toNat = 65535 + last.toNat

/-- The identifier behind another. -/
def succIdentifier (counter : UInt16) : UInt16 := if counter = 65535 then 1 else counter + 1

theorem toNat_succIdentifier (counter : UInt16) : (succIdentifier counter).toNat =
    if counter.toNat = 65535 then 1 else counter.toNat + 1 := by
  have hlt := counter.toNat_lt
  rw [succIdentifier]
  split
  next h =>
    rw [h]
    rfl
  next h =>
    have hne : counter.toNat ≠ 65535 := fun heq => h (UInt16.toNat_inj.mp heq)
    rw [if_neg hne, UInt16.toNat_add]
    exact Nat.mod_eq_of_lt (by rw [UInt16.toNat_one]; omega)

theorem nextIdentifier_succ (s : State) (last counter : UInt16) (fuel : Nat) :
    s.nextIdentifier last (fuel + 1) counter =
      if last = succIdentifier counter then succIdentifier counter
      else if s.identifierIsPending (succIdentifier counter) then
        s.nextIdentifier last fuel (succIdentifier counter)
      else succIdentifier counter := rfl

theorem succIdentifier_ne_zero (counter : UInt16) : succIdentifier counter ≠ 0 := by
  intro h
  have htoNat := toNat_succIdentifier counter
  rw [h] at htoNat
  split at htoNat
  next => cases htoNat
  next => cases htoNat

/-- One identifier further there is one less to go. -/
theorem Left.succ {counter last : UInt16} {fuel : Nat} (h : Left counter last (fuel + 1))
    (hne : last ≠ succIdentifier counter) : Left (succIdentifier counter) last fuel := by
  have hlt := counter.toNat_lt
  have hlast := last.toNat_lt
  have hne : last.toNat ≠ (succIdentifier counter).toNat := fun heq => hne (UInt16.toNat_inj.mp heq)
  rw [Left] at h ⊢
  rw [toNat_succIdentifier] at hne ⊢
  split_ifs at * <;> omega

/-- At the end of the turn nothing is between. -/
theorem not_between_of_eq {counter i last : UInt16} (heq : last = succIdentifier counter)
    (hi : i ≠ 0) : ¬ Between counter i last := by
  have hlt := i.toNat_lt
  have hi : i.toNat ≠ 0 := fun h => hi (UInt16.toNat_inj.mp h)
  have hlast := congrArg UInt16.toNat heq
  rw [toNat_succIdentifier] at hlast
  rw [Between]
  split_ifs at * <;> omega

/-- What is between is the next identifier or behind it. -/
theorem Between.eq_or_succ {counter i last : UInt16} (h : Between counter i last) (hi : i ≠ 0)
    (hne : last ≠ succIdentifier counter) :
    i = succIdentifier counter ∨ Between (succIdentifier counter) i last := by
  have hlt := i.toNat_lt
  have hi : i.toNat ≠ 0 := fun h => hi (UInt16.toNat_inj.mp h)
  have hne : last.toNat ≠ (succIdentifier counter).toNat := fun heq => hne (UInt16.toNat_inj.mp heq)
  rw [← UInt16.toNat_inj]
  rw [Between] at h ⊢
  rw [toNat_succIdentifier] at hne ⊢
  split_ifs at * <;> omega

/-- A turn without one step left began at zero, which is never the last identifier of a run. -/
theorem Left.eq_of_zero {counter last : UInt16} (h : Left counter last 0) :
    counter.toNat = 65535 ∧ last.toNat = 0 := by
  have hlt := counter.toNat_lt
  rw [Left] at h
  split_ifs at h <;> omega

/-- What the rest of the turn finds. -/
theorem nextIdentifier_spec {last : UInt16} (fuel : Nat) (counter : UInt16)
    (h : Left counter last fuel) : s.nextIdentifier last fuel counter ≠ 0 ∧
      (s.identifierIsPending (s.nextIdentifier last fuel counter) = true → ∀ i, i ≠ 0 →
        i = last ∨ Between counter i last → s.identifierIsPending i = true) := by
  induction fuel generalizing counter with
  | zero =>
      obtain ⟨hcounter, hlast⟩ := h.eq_of_zero
      refine ⟨fun hzero => ?_, fun _ i hi hbetween => ?_⟩
      · rw [nextIdentifier] at hzero
        rw [hzero] at hcounter
        cases hcounter
      · rcases hbetween with rfl | hbetween
        · exact absurd (UInt16.toNat_inj.mp hlast) hi
        · have hlt := i.toNat_lt
          rw [Between] at hbetween
          split_ifs at hbetween <;> omega
  | succ fuel ih =>
      rw [nextIdentifier_succ]
      split
      next heq =>
        refine ⟨succIdentifier_ne_zero counter, fun hpending i hi hbetween => ?_⟩
        rcases hbetween with rfl | hbetween
        · rw [heq]
          exact hpending
        · exact absurd hbetween (not_between_of_eq heq hi)
      next hne =>
        split
        next hpending =>
          obtain ⟨hzero, hall⟩ := ih (succIdentifier counter) (h.succ hne)
          refine ⟨hzero, fun hr i hi hbetween => ?_⟩
          rcases hbetween with rfl | hbetween
          · exact hall hr i hi (.inl rfl)
          · rcases hbetween.eq_or_succ hi hne with rfl | hbetween
            · exact hpending
            · exact hall hr i hi (.inr hbetween)
        next hfree =>
          exact ⟨succIdentifier_ne_zero counter, fun hpending => absurd hpending hfree⟩

theorem between_self {i last : UInt16} (hne : i ≠ last) : Between last i last := by
  have hne : i.toNat ≠ last.toNat := fun heq => hne (UInt16.toNat_inj.mp heq)
  rw [Between, if_neg (Nat.lt_irrefl _)]
  exact hne.lt_or_gt.symm

/-- The identifier is in use only if all of them are. -/
theorem unusedPacketIdentifier_spec (s : State) : (s.unusedPacketIdentifier).1 ≠ 0 ∧
    (s.identifierIsPending (s.unusedPacketIdentifier).1 = true ↔
      ∀ i, i ≠ 0 → s.identifierIsPending i = true) := by
  have hleft : Left s.packetIdentifierCounter s.packetIdentifierCounter 65535 := by
    rw [Left, if_neg (Nat.lt_irrefl _)]
  obtain ⟨hzero, hall⟩ := @nextIdentifier_spec s _ _ _ hleft
  refine ⟨hzero, fun hpending i hi => hall hpending i hi ?_, fun h => h _ hzero⟩
  by_cases heq : i = s.packetIdentifierCounter
  · exact .inl heq
  · exact .inr (between_self heq)

/-- The identifier of a new packet, when one is free. -/
theorem unusedPacketIdentifier_free {i : UInt16} (hi : i ≠ 0)
    (hfree : s.identifierIsPending i = false) :
    s.identifierIsPending (s.unusedPacketIdentifier).1 = false := by
  refine Bool.eq_false_iff.mpr fun hpending => ?_
  cases hfree.symm.trans ((unusedPacketIdentifier_spec s).2.mp hpending i hi)

theorem filter_ne_of_not_mem {α : Type*} [DecidableEq α] {l : List α} {a : α} (h : a ∉ l) :
    l.filter (· ≠ a) = l :=
  List.filter_eq_self.mpr fun _ hx => decide_eq_true fun heq => h (heq ▸ hx)

/-- An identifier that is not under way is in none of the tables. -/
theorem not_mem_of_free {i : UInt16} (h : s.identifierIsPending i = false) :
    i ∉ s.pendingSubscriptionAck.map Prod.fst ∧ i ∉ s.pendingMessages := by
  rw [identifierIsPending, Bool.or_eq_false_iff, Bool.or_eq_false_iff] at h
  obtain ⟨⟨hsubscribe, hmessage⟩, -⟩ := h
  constructor
  · intro hmem
    cases hsubscribe.symm.trans (List.contains_iff_mem.mpr hmem)
  · intro hmem
    cases hmessage.symm.trans (List.contains_iff_mem.mpr hmem)

/-- A PUBLISH is written. -/
def WritesPublish (accepts : Nat → Bool) (s : State) (topic : QString) : Prop :=
  topicNameIsValid topic = true ∧ accepts s.writes = true

/-- A SUBSCRIBE is written.  A topic that is subscribed to already needs none. -/
def WritesSubscribe (accepts : Nat → Bool) (s : State) (topic : QString) (qos : UInt8) : Prop :=
  topicFilterIsValid topic = true ∧ qos ≤ 2 ∧ s.findActiveSubscription topic = none ∧
    accepts s.writes = true

/-- A packet is written under an identifier that is not zero and that no packet under way has. -/
def TakesIdentifier (s s' : State) (packet : UInt16 → Control) (identifier : UInt16) : Prop :=
  identifier ≠ 0 ∧ s.identifierIsPending identifier = false ∧
    s'.sent = s.sent ++ [packet identifier]

variable {accepts : Nat → Bool} {topic : QString} {qos : UInt8}

/-- A PUBLISH that is not written was in the table for a moment. -/
theorem sendControlPublish_unwritten {i : UInt16} (hi : i ≠ 0)
    (hfree : s.identifierIsPending i = false) (h : ¬ WritesPublish accepts s topic) :
    (s.sendControlPublish accepts topic qos).sent = s.sent ∧
      (s.sendControlPublish accepts topic qos).pendingMessages = s.pendingMessages := by
  have hmem := (not_mem_of_free (unusedPacketIdentifier_free hi hfree)).2
  rw [sendControlPublish]
  split
  next hvalid =>
    have hrefused : accepts s.writes = false := Bool.eq_false_iff.mpr fun hw => h ⟨hvalid, hw⟩
    by_cases hqos : 0 < qos
    · have hkept : s.unusedPacketIdentifier.2.pendingMessages.filter
          (· ≠ s.unusedPacketIdentifier.1) = s.pendingMessages := filter_ne_of_not_mem hmem
      have hwrites : accepts s.unusedPacketIdentifier.2.writes = false := hrefused
      simp only [hqos, if_true, decide_true, Bool.and_true, writePacketToTransport, hkept, hwrites,
        Bool.not_false, Bool.false_eq_true, if_false]
      refine ⟨rfl, ?_⟩
      rw [List.filter_append, filter_ne_of_not_mem hmem]
      simp
    · simp only [hqos, if_false, decide_false, Bool.and_false, Bool.false_eq_true,
        writePacketToTransport, hrefused, and_self]
  next => exact ⟨rfl, rfl⟩

/-- A PUBLISH that nobody acknowledges has no identifier. -/
theorem sendControlPublish_zero (h : WritesPublish accepts s topic) :
    (s.sendControlPublish accepts topic 0).sent = s.sent ++ [.publish 0 topic 0] ∧
      (s.sendControlPublish accepts topic 0).pendingMessages = s.pendingMessages := by
  rw [sendControlPublish, if_pos h.1]
  simp only [UInt8.lt_irrefl, if_false, decide_false, Bool.and_false, Bool.false_eq_true,
    writePacketToTransport, h.2, if_true, and_self]

/-- A PUBLISH that is acknowledged. -/
theorem sendControlPublish_pending {i : UInt16} (hi : i ≠ 0)
    (hfree : s.identifierIsPending i = false) (hqos : 0 < qos)
    (h : WritesPublish accepts s topic) :
    ∃ identifier, TakesIdentifier s (s.sendControlPublish accepts topic qos)
        (.publish · topic qos) identifier ∧
      (s.sendControlPublish accepts topic qos).pendingMessages =
        s.pendingMessages ++ [identifier] := by
  have hfree := unusedPacketIdentifier_free hi hfree
  have hkept : s.unusedPacketIdentifier.2.pendingMessages.filter
      (· ≠ s.unusedPacketIdentifier.1) = s.pendingMessages :=
    filter_ne_of_not_mem (not_mem_of_free hfree).2
  have hwrites : accepts s.unusedPacketIdentifier.2.writes = true := h.2
  refine ⟨_, ⟨(unusedPacketIdentifier_spec s).1, hfree, ?_⟩, ?_⟩
  all_goals
    rw [sendControlPublish, if_pos h.1]
    simp only [hqos, if_true, decide_true, Bool.and_true, writePacketToTransport, hkept, hwrites,
      Bool.not_true, Bool.false_eq_true, if_false]
  rfl

/-- A SUBSCRIBE that is not written. -/
theorem sendControlSubscribe_unwritten (h : ¬ WritesSubscribe accepts s topic qos) :
    (s.sendControlSubscribe accepts topic qos).2.sent = s.sent ∧
      (s.sendControlSubscribe accepts topic qos).2.pendingSubscriptionAck =
        s.pendingSubscriptionAck := by
  rw [sendControlSubscribe]
  split
  next => exact ⟨rfl, rfl⟩
  next hvalid =>
    rw [Bool.or_eq_true, not_or, Bool.not_eq_true', Bool.not_eq_false, decide_eq_true_eq,
      UInt8.not_lt] at hvalid
    split
    next => exact ⟨rfl, rfl⟩
    next hnone =>
      have hwrites : accepts s.unusedPacketIdentifier.2.writes = false :=
        Bool.eq_false_iff.mpr fun hw => h ⟨hvalid.1, hvalid.2, hnone, hw⟩
      simp only [writePacketToTransport, hwrites, Bool.false_eq_true, if_false]
      exact ⟨rfl, rfl⟩

/-- A SUBSCRIBE that is written. -/
theorem sendControlSubscribe_pending {i : UInt16} (hi : i ≠ 0)
    (hfree : s.identifierIsPending i = false) (h : WritesSubscribe accepts s topic qos) :
    ∃ identifier, TakesIdentifier s (s.sendControlSubscribe accepts topic qos).2
        (.subscribe · topic qos) identifier ∧
      (s.sendControlSubscribe accepts topic qos).2.pendingSubscriptionAck =
        s.pendingSubscriptionAck ++ [(identifier, s.subscriptions.created)] := by
  obtain ⟨hvalid, hqos, hnone, hwritten⟩ := h
  have hfree := unusedPacketIdentifier_free hi hfree
  have hmem := (not_mem_of_free hfree).1
  have hkept : s.unusedPacketIdentifier.2.pendingSubscriptionAck.filter
      (·.1 ≠ s.unusedPacketIdentifier.1) = s.pendingSubscriptionAck :=
    List.filter_eq_self.mpr fun x hx => decide_eq_true fun heq =>
      hmem (heq ▸ List.mem_map_of_mem hx)
  have hwrites : accepts s.unusedPacketIdentifier.2.writes = true := hwritten
  refine ⟨_, ⟨(unusedPacketIdentifier_spec s).1, hfree, ?_⟩, ?_⟩
  all_goals
    rw [sendControlSubscribe, if_neg (by simpa [hvalid] using hqos), hnone]
    simp only [writePacketToTransport, hkept, hwrites, if_true]
    rfl

/-- As long as an identifier is free, a packet that is written and waits for an answer gets one that
is not zero and that no packet under way has, and it takes the place of none of them.  A packet
that is not written leaves the table as it was. -/
theorem sends_keep_pending (s : State) (accepts : Nat → Bool) {i : UInt16} (hi : i ≠ 0)
    (hfree : s.identifierIsPending i = false) (topic : QString) (qos : UInt8) :
    let published := s.sendControlPublish accepts topic qos
    let subscribed := (s.sendControlSubscribe accepts topic qos).2
    (¬ WritesPublish accepts s topic →
      published.sent = s.sent ∧ published.pendingMessages = s.pendingMessages) ∧
    (WritesPublish accepts s topic → qos = 0 →
      published.sent = s.sent ++ [.publish 0 topic 0] ∧
        published.pendingMessages = s.pendingMessages) ∧
    (WritesPublish accepts s topic → 0 < qos →
      ∃ identifier, TakesIdentifier s published (.publish · topic qos) identifier ∧
        published.pendingMessages = s.pendingMessages ++ [identifier]) ∧
    (¬ WritesSubscribe accepts s topic qos →
      subscribed.sent = s.sent ∧
        subscribed.pendingSubscriptionAck = s.pendingSubscriptionAck) ∧
    (WritesSubscribe accepts s topic qos →
      ∃ identifier, TakesIdentifier s subscribed (.subscribe · topic qos) identifier ∧
        subscribed.pendingSubscriptionAck =
          s.pendingSubscriptionAck ++ [(identifier, s.subscriptions.created)]) := by
  refine ⟨sendControlPublish_unwritten hi hfree, ?_, fun h hqos =>
    sendControlPublish_pending hi hfree hqos h, sendControlSubscribe_unwritten,
    sendControlSubscribe_pending hi hfree⟩
  rintro h rfl
  exact sendControlPublish_zero h

/-- Behind 65535 comes 1, and it is in use. -/
theorem sends_keep_pending_wrapped :
    let config : EmbskyConfig := ⟨[], 0, [], [], [], 0, [], []⟩
    let s := { start config [] with
      packetIdentifierCounter := 65535, pendingMessages := [1, 7] }
    let published := s.sendControlPublish (fun _ => true) [0x61] 1
    published.pendingMessages = [1, 7, 2] ∧
      ∃ identifier, TakesIdentifier s published (.publish · [0x61] 1) identifier ∧
        published.pendingMessages = [1, 7] ++ [identifier] := by
  intro config s published
  obtain ⟨-, -, hpublish, -⟩ := sends_keep_pending s (fun _ => true)
    (by decide : (2 : UInt16) ≠ 0) (by decide) [0x61] 1
  exact ⟨by decide, hpublish ⟨by decide, rfl⟩ (by decide)⟩

end State

end IotEdge.Mqtt
