import IotEdge.Monitor.MqttReader

/-!
# The messages

A message comes to a handler in one place, at the end of `finalize_publish`.  All other functions
leave `delivered` as it is, and the lemmas of the first section say so one by one.

A turn of the reader is at most one PUBLISH, so what it delivers is one message, to the handlers
that `receivers` names (`processDataHelper_delivered`).  `AtPublish` is a PUBLISH as the standard
has it, and of that the handlers get the payload.  `delivers_once` puts this together with what
holds of `receivers` in every state.
-/

namespace IotEdge.Mqtt

open Monitor

section

variable {accepts : Nat → Bool} {agree : Prop} {fromUtf8 : List UInt8 → QString}

namespace State

variable {s s' : State}

/-! ## What leaves the messages alone -/

theorem Wrote.delivered (h : Wrote s s') : s'.delivered = s.delivered := by
  obtain ⟨_, _, _, _, _, _, rfl⟩ := h
  rfl

@[simp] theorem requestAlarmLogs_delivered (s : State) :
    (s.requestAlarmLogs accepts).delivered = s.delivered :=
  (requestAlarmLogs_wrote s).1.delivered

@[simp] theorem sendThresholdConfig_delivered (s : State) :
    (s.sendThresholdConfig accepts).delivered = s.delivered := by
  rw [sendThresholdConfig]
  split
  next => exact (publish_wrote _ _ _).1.delivered
  next => rfl

@[simp] theorem subscribe_delivered (s : State) (topic : QString) (qos : UInt8) :
    (s.subscribe accepts topic qos).2.delivered = s.delivered := by
  rw [subscribe]
  split
  next => rfl
  next =>
    rw [sendControlSubscribe]
    split
    next => rfl
    next =>
      split
      next => rfl
      next =>
        simp only [writePacketToTransport]
        split
        next => rfl
        next => rfl

@[simp] theorem subscribeHandler_delivered (s : State) (h : Handler) (qos : UInt8) :
    (s.subscribeHandler accepts h qos).delivered = s.delivered := by
  have hsub := @subscribe_delivered accepts s (s.config.topicFilter h) qos
  rw [subscribeHandler]
  split
  next heq =>
    rw [heq] at hsub
    exact hsub
  next heq =>
    rw [heq] at hsub
    exact hsub

@[simp] theorem subscribeTopics_delivered (s : State) :
    (s.subscribeTopics accepts).delivered = s.delivered := by
  simp only [subscribeTopics, subscribeHandler_delivered]
  split <;> split <;> simp only [subscribeHandler_delivered]

@[simp] theorem onMqttError_delivered (s : State) (error : ClientError) :
    (s.onMqttError error).delivered = s.delivered := by
  rw [onMqttError]
  split <;> rfl

@[simp] theorem setState_delivered (s : State) (state : ClientState) :
    (s.setState accepts state).delivered = s.delivered := by
  rw [setState]
  split
  next => rfl
  next =>
    cases state with
    | disconnected => rfl
    | connected => simp only [onMqttConnected, requestAlarmLogs_delivered, subscribeTopics_delivered]
    | connecting => rfl

@[simp] theorem setError_delivered (s : State) (error : ClientError) :
    (s.setError error).delivered = s.delivered := by
  rw [setError]
  split
  next => rfl
  next => exact onMqttError_delivered _ _

@[simp] theorem setStateAndError_delivered (s : State) (state : ClientState)
    (error : ClientError) :
    (s.setStateAndError accepts state error).delivered = s.delivered := by
  rw [setStateAndError, setState_delivered]
  split
  next => exact setError_delivered _ _
  next => rfl

@[simp] theorem closeConnection_delivered (s : State) (error : ClientError) :
    (s.closeConnection accepts error).delivered = s.delivered := by
  rw [closeConnection, setStateAndError_delivered]

@[simp] theorem takeBuffer_delivered (s : State) (size : Nat) :
    (s.takeBuffer accepts size).2.delivered = s.delivered := by
  rw [takeBuffer]
  split
  next => simp only [closeConnection_delivered]
  next => rfl

@[simp] theorem readBufferTyped_delivered (s : State) (size : Nat) (counted : Bool) :
    (s.readBufferTyped accepts size counted).2.delivered = s.delivered := by
  have htake := @takeBuffer_delivered accepts s size
  rw [readBufferTyped]
  split
  next => rfl
  next =>
    split
    next heq =>
      rw [heq] at htake
      exact htake
    next heq =>
      rw [heq] at htake
      split
      next => exact htake
      next => exact htake

@[simp] theorem readByteArray_delivered (s : State) :
    (s.readByteArray accepts).2.delivered = s.delivered := by
  have hread := @readBufferTyped_delivered accepts s 2 true
  rw [readByteArray]
  generalize s.readBufferTyped accepts 2 true = r at hread ⊢
  obtain ⟨size, s₁⟩ := r
  have htake := @takeBuffer_delivered accepts s₁ size
  simp only
  split
  next => exact hread
  next =>
    split
    next heq =>
      rw [heq] at htake
      exact htake.trans hread
    next heq =>
      rw [heq] at htake
      exact htake.trans hread

@[simp] theorem variableByteInteger_delivered (fuel multiplier msgLength : Nat) (s : State) :
    (variableByteInteger accepts fuel multiplier msgLength s).2.delivered = s.delivered := by
  induction fuel generalizing multiplier msgLength s with
  | zero => simp only [variableByteInteger, closeConnection_delivered, readBufferTyped_delivered]
  | succ fuel ih =>
      rw [variableByteInteger]
      simp only
      split
      next => rw [ih, readBufferTyped_delivered]
      next => exact readBufferTyped_delivered _ _ _

@[simp] theorem readFirst_delivered (s : State) :
    (s.readFirst accepts).delivered = s.delivered := by
  have htake := @takeBuffer_delivered accepts s 1
  rw [readFirst]
  split
  next heq =>
    rw [heq] at htake
    exact htake
  next heq =>
    rw [heq] at htake
    exact htake

@[simp] theorem readHeader_delivered (s : State) :
    (s.readHeader accepts).2.delivered = s.delivered := by
  rw [← @readFirst_delivered accepts s, readHeader]
  generalize s.readFirst accepts = s₁
  have hread := @readBufferTyped_delivered accepts s₁ 1 false
  have hlength := @variableByteInteger_delivered accepts 4 1 0 s₁
  simp only [refuse, readVariableByteInteger]
  grind [closeConnection_delivered, variableByteInteger_delivered]

@[simp] theorem finalizeConnack_delivered (s : State) :
    (s.finalizeConnack accepts).delivered = s.delivered := by
  simp only [finalizeConnack, cleanSubscriptions]
  split_ifs <;> simp only [closeConnection_delivered, takeBuffer_delivered,
    readBufferTyped_delivered, setStateAndError_delivered]

theorem subackReasons_delivered {fuel : Nat} (h : s.subackReasons accepts fuel = some s') :
    s'.delivered = s.delivered := by
  induction fuel generalizing s with
  | zero => cases h
  | succ fuel ih =>
      have hread := @readBufferTyped_delivered accepts s 1 true
      rw [subackReasons] at h
      generalize s.readBufferTyped accepts 1 true = r at h hread
      obtain ⟨reason, s₁⟩ := r
      simp only at h
      have hclose : (if reason ≤ 2 ∨ reason = 128 then s₁
          else s₁.closeConnection accepts .protocolViolation).delivered = s₁.delivered := by
        split
        next => rfl
        next => exact closeConnection_delivered _ _
      generalize (if reason ≤ 2 ∨ reason = 128 then s₁
        else s₁.closeConnection accepts .protocolViolation) = s₂ at h hclose
      split at h
      next => exact (ih h).trans (hclose.trans hread)
      next =>
        cases h
        exact hclose.trans hread

theorem finalizeSuback_delivered (h : s.finalizeSuback accepts = some s') :
    s'.delivered = s.delivered := by
  have hread := @readBufferTyped_delivered accepts s 2 true
  rw [finalizeSuback] at h
  generalize s.readBufferTyped accepts 2 true = r at h hread
  obtain ⟨identifier, s₁⟩ := r
  simp only at h
  split at h
  next => exact (subackReasons_delivered h).trans hread
  next =>
    cases h
    exact hread

@[simp] theorem finalizePubAckRecRelComp_delivered (s : State) :
    (s.finalizePubAckRecRelComp accepts).delivered = s.delivered := by
  simp only [finalizePubAckRecRelComp, writePacketToTransport]
  split_ifs <;> exact readBufferTyped_delivered _ _ _

@[simp] theorem finalizePingresp_delivered (s : State) :
    (s.finalizePingresp accepts).delivered = s.delivered := by
  simp only [finalizePingresp]
  split
  next => rw [closeConnection_delivered, readBufferTyped_delivered]
  next => exact readBufferTyped_delivered _ _ _

@[simp] theorem transportConnectionClosed_delivered (s : State) :
    (s.transportConnectionClosed accepts).delivered = s.delivered := by
  rw [transportConnectionClosed]
  split <;> exact setStateAndError_delivered _ _ _

@[simp] theorem transportConnectionEstablished_delivered (s : State) :
    (s.transportConnectionEstablished accepts).delivered = s.delivered := by
  rw [transportConnectionEstablished]
  split
  next => rfl
  next =>
    simp only [sendControlConnect, writePacketToTransport]
    split
    next => rfl
    next => exact setStateAndError_delivered _ _ _

@[simp] theorem sendControlPingRequest_delivered (s : State) :
    (s.sendControlPingRequest accepts).delivered = s.delivered := by
  rw [sendControlPingRequest]
  split
  next => rfl
  next =>
    split
    next => exact closeConnection_delivered _ _
    next =>
      simp only [writePacketToTransport]
      split <;> rfl

@[simp] theorem sendControlDisconnect_delivered (s : State) (flushed : Bool) :
    (s.sendControlDisconnect accepts flushed).delivered = s.delivered := by
  obtain ⟨sent, hsent⟩ := @sendControlDisconnect_eq accepts s flushed
  rw [hsent]
  simp only
  split_ifs
  · exact transportConnectionClosed_delivered _
  · exact closeConnection_delivered _ _
  · rfl

@[simp] theorem onEmbskyDisconnectRequested_delivered (s : State) (flushed : Bool) :
    (s.onEmbskyDisconnectRequested accepts flushed).delivered = s.delivered := by
  simp only [onEmbskyDisconnectRequested]
  split
  next =>
    rw [disconnectFromHost]
    split
    next => exact sendControlDisconnect_delivered _ _
    next => rfl
    next => exact transportConnectionClosed_delivered _
    next => exact transportConnectionClosed_delivered _
  next => rfl

@[simp] theorem onEmbskyConnectRequested_delivered (s : State) (config : EmbskyConfig) :
    (s.onEmbskyConnectRequested accepts config).delivered = s.delivered := by
  have hconnect : ∀ t : State, (t.connectToHost accepts).delivered = t.delivered := by
    intro t
    rw [connectToHost]
    split
    next => rfl
    next =>
      split
      next => exact setStateAndError_delivered _ _ _
      next => exact setStateAndError_delivered _ _ _
  rw [onEmbskyConnectRequested, hconnect]
  split <;> rfl

theorem onConnectClicked_delivered (s : State) (fields : EmbskyConfig) (now : Int)
    (flushed : Bool) : (s.onConnectClicked accepts fields now flushed).delivered = s.delivered := by
  rw [onConnectClicked]
  split
  next => exact onEmbskyDisconnectRequested_delivered _ _
  next =>
    split
    next => rfl
    next => exact onEmbskyConnectRequested_delivered _ _

/-! ## A PUBLISH -/

/-- What `finalize_publish` delivers, after its three reads. -/
theorem finalizePublish_eq {s₁ s₂ s₃ : State} {topic : List UInt8} {identifier : Nat}
    {message : Option (List UInt8)} (htopic : s.readByteArray accepts = (topic, s₁))
    (hidentifier : (if 0 < s₁.currentQos then s₁.readBufferTyped accepts 2 true else (0, s₁)) =
      (identifier, s₂))
    (hmessage : s₂.takeBuffer accepts s₂.missingData.toNat = (message, s₃)) :
    (s.finalizePublish accepts fromUtf8).delivered =
      s₃.delivered ++ (s₃.receivers (fromUtf8 topic)).map fun k => (k, message.getD []) := by
  rw [finalizePublish]
  simp only [htopic, hidentifier, hmessage]
  split_ifs <;> rfl

/-- The receivers are those of the view. -/
theorem Keeps.receivers (h : Keeps s s') (topic : QString) :
    s'.receivers topic = s.receivers topic ∨ s'.receivers topic = [] := by
  rcases h.2 with ⟨hview, -⟩ | ⟨hview, -⟩
  · refine .inl ?_
    have hsub : s'.subscriptions = s.subscriptions := congrArg View.subscriptions hview
    rw [State.receivers, State.receivers, hsub]
  · refine .inr ?_
    have hsub : s'.subscriptions.active = [] :=
      congrArg (fun v : View => v.subscriptions.active) hview
    rw [State.receivers, hsub]
    rfl

/-- The message of a PUBLISH comes to the receivers of one topic.  If the packet is broken, the
connection is closed, and there are none. -/
theorem finalizePublish_delivered (h : s.view.Ok accepts agree) :
    (s.finalizePublish accepts fromUtf8).delivered = s.delivered ∨
      ∃ topic message, (s.finalizePublish accepts fromUtf8).delivered =
        s.delivered ++ (s.receivers topic).map fun k => (k, message) := by
  have hread := keeps_readByteArray h
  have hsame := @readByteArray_delivered accepts s
  generalize htopic : s.readByteArray accepts = r at hread hsame
  obtain ⟨topic, s₁⟩ := r
  have hid : Keeps s (if 0 < s₁.currentQos then s₁.readBufferTyped accepts 2 true
        else (0, s₁)).2 ∧
      (if 0 < s₁.currentQos then s₁.readBufferTyped accepts 2 true
        else (0, s₁)).2.delivered = s.delivered := by
    split
    next => exact ⟨hread.trans (keeps_readBufferTyped (hread.ok h) 2 true),
      (readBufferTyped_delivered _ _ _).trans hsame⟩
    next => exact ⟨hread, hsame⟩
  generalize hidentifier : (if 0 < s₁.currentQos then s₁.readBufferTyped accepts 2 true
    else (0, s₁)) = r at hid
  obtain ⟨identifier, s₂⟩ := r
  have htake := hid.1.trans (keeps_takeBuffer (hid.1.ok h) s₂.missingData.toNat)
  have hsame := (@takeBuffer_delivered accepts s₂ s₂.missingData.toNat).trans hid.2
  generalize hmessage : s₂.takeBuffer accepts s₂.missingData.toNat = r at htake hsame
  obtain ⟨message, s₃⟩ := r
  rw [finalizePublish_eq htopic hidentifier hmessage, hsame]
  rcases htake.receivers (fromUtf8 topic) with heq | hnil
  · exact .inr ⟨_, _, by rw [heq]⟩
  · exact .inl (by rw [hnil, List.map_nil, List.append_nil])

/-- A PUBLISH is there, with these bytes as its topic and these as its payload. -/
structure AtPublish (s : State) (topic payload : List UInt8) : Prop where
  packetType : s.packetType = 0x30
  bytes : ∃ high low identifier more,
    s.readBuffer.drop s.readPosition = high :: low :: (topic ++ (identifier ++ (payload ++ more))) ∧
    topic.length = high.toNat * 256 + low.toNat ∧
    identifier.length = (if 0 < s.currentQos then 2 else 0) ∧
    s.missingData = topic.length + identifier.length + payload.length + 2

/-- The bytes behind the ones that are taken. -/
theorem takeBuffer_eq {bytes tail : List UInt8}
    (hbytes : s.readBuffer.drop s.readPosition = bytes ++ tail) :
    s.takeBuffer accepts bytes.length =
        (some bytes, { s with readPosition := s.readPosition + bytes.length }) ∧
      s.readBuffer.drop (s.readPosition + bytes.length) = tail := by
  have hlength := congrArg List.length hbytes
  rw [List.length_drop, List.length_append] at hlength
  constructor
  · rw [takeBuffer, if_neg (by omega), hbytes, List.take_left]
  · rw [← List.drop_drop, hbytes, List.drop_left]

/-- The state when the next bytes of the packet were taken. -/
def taken (s : State) (n : Nat) : State :=
  { s with
    readPosition := s.readPosition + n
    missingData := s.missingData - n }

/-- A byte array that is there, behind its length. -/
theorem readByteArray_eq {high low : UInt8} {bytes tail : List UInt8}
    (hbytes : s.readBuffer.drop s.readPosition = high :: low :: (bytes ++ tail))
    (hlength : bytes.length = high.toNat * 256 + low.toNat)
    (hmissing : (bytes.length : Int) + 2 ≤ s.missingData) :
    s.readByteArray accepts = (bytes, (s.taken 2).taken bytes.length) ∧
      s.readBuffer.drop (s.readPosition + 2 + bytes.length) = tail := by
  have hvalue : [high, low].foldl (fun n b => n * 256 + b.toNat) 0 = bytes.length := by
    rw [hlength]
    simp
  obtain ⟨hsize, hrest⟩ : s.readBufferTyped accepts 2 true = (bytes.length, s.taken 2) ∧
      (s.taken 2).readBuffer.drop (s.taken 2).readPosition = bytes ++ tail := by
    have hread := @readBufferTyped_eq accepts s [high, low] (bytes ++ tail)
      (by simp only [List.length_cons, List.length_nil]; omega) hbytes
    rw [hvalue] at hread
    exact hread
  have hleft : (bytes.length : Int) ≤ (s.taken 2).missingData := by
    rw [taken]
    simp only
    omega
  obtain ⟨htake, hrest⟩ := @takeBuffer_eq accepts _ _ _ hrest
  refine ⟨?_, hrest⟩
  rw [readByteArray, hsize]
  simp only
  rw [if_neg hleft.not_gt, htake]
  rfl

/-- Of a PUBLISH that is as it should be, the receivers of its topic get the payload. -/
theorem AtPublish.delivered {topic payload : List UInt8} (h : s.AtPublish topic payload) :
    (s.finalizePublish accepts fromUtf8).delivered =
      s.delivered ++ (s.receivers (fromUtf8 topic)).map fun k => (k, payload) := by
  obtain ⟨high, low, identifier, more, hbytes, htopic, hidentifier, hmissing⟩ := h.bytes
  obtain ⟨hread, hrest⟩ := @readByteArray_eq accepts s _ _ _ _ hbytes htopic
    (by rw [hmissing]; omega)
  have hleft : ((s.taken 2).taken topic.length).missingData =
      identifier.length + payload.length := by
    rw [taken, taken]
    simp only
    omega
  generalize hs₁ : (s.taken 2).taken topic.length = s₁ at hread hleft
  have hrest₁ : s₁.readBuffer.drop s₁.readPosition = identifier ++ (payload ++ more) := by
    rw [← hs₁]
    exact hrest
  obtain ⟨n, hid, hrest₂⟩ : ∃ n, (if 0 < s₁.currentQos then s₁.readBufferTyped accepts 2 true
        else (0, s₁)) = (n, s₁.taken identifier.length) ∧
      (s₁.taken identifier.length).readBuffer.drop (s₁.taken identifier.length).readPosition =
        payload ++ more := by
    have hqos : s₁.currentQos = s.currentQos := by
      rw [← hs₁]
      rfl
    rw [hqos]
    split
    next hpos =>
      rw [if_pos hpos] at hidentifier
      have hread := @readBufferTyped_eq accepts s₁ identifier (payload ++ more) (by omega) hrest₁
      rw [hidentifier] at hread ⊢
      exact ⟨_, hread⟩
    next hzero =>
      rw [if_neg hzero] at hidentifier
      rw [List.eq_nil_of_length_eq_zero hidentifier] at hrest₁ ⊢
      refine ⟨0, ?_, hrest₁⟩
      rw [taken, List.length_nil, Nat.add_zero, Nat.cast_zero, Int.sub_zero]
  obtain ⟨htake, -⟩ := @takeBuffer_eq accepts _ _ _ hrest₂
  have hlength : (s₁.taken identifier.length).missingData.toNat = payload.length := by
    rw [taken]
    simp only
    omega
  rw [← hlength] at htake
  rw [finalizePublish_eq hread hid htake, ← hs₁]
  rfl

/-! ## A turn -/

theorem finalizePacket_delivered (hs : s.finalizePacket accepts fromUtf8 = some s') :
    s'.delivered = if s.packetType = 0x30 then (s.finalizePublish accepts fromUtf8).delivered
      else s.delivered := by
  rw [finalizePacket] at hs
  split at hs
  next htype =>
    cases hs
    rw [htype, if_neg (by decide), finalizeConnack_delivered]
  next =>
    split at hs
    next htype => rw [htype, if_neg (by decide), finalizeSuback_delivered hs]
    next =>
      split at hs
      next htype =>
        cases hs
        rw [htype, if_neg (by decide)]
        exact readBufferTyped_delivered _ _ _
      next =>
        split at hs
        next htype =>
          cases hs
          rw [if_pos htype]
        next htype =>
          rw [if_neg htype]
          split at hs
          next =>
            cases hs
            exact finalizePubAckRecRelComp_delivered _
          next =>
            split at hs
            next =>
              cases hs
              exact finalizePingresp_delivered _
            next =>
              cases hs
              exact closeConnection_delivered _ _

/-- A packet is there, and it is a PUBLISH. -/
def PublishIsThere (s : State) : Prop :=
  s.packetType = 0x30 ∧ 0 < s.missingData ∧
    s.missingData ≤ (s.readBuffer.length : Int) - s.readPosition

instance (s : State) : Decidable s.PublishIsThere :=
  inferInstanceAs (Decidable (_ ∧ _ ∧ _))

theorem AtPublish.publishIsThere {topic payload : List UInt8} (h : s.AtPublish topic payload) :
    s.PublishIsThere := by
  obtain ⟨high, low, identifier, more, hbytes, -, -, hmissing⟩ := h.bytes
  have hlength := congrArg List.length hbytes
  simp only [List.length_drop, List.length_cons, List.length_append] at hlength
  exact ⟨h.packetType, by omega, by omega⟩

/-- The header of the next packet delivers nothing. -/
theorem processDataHelper_finalized {again : Bool}
    (hs : s.processDataHelper accepts fromUtf8 = some (again, s')) :
    s'.delivered = if s.PublishIsThere then (s.finalizePublish accepts fromUtf8).delivered
      else s.delivered := by
  have hheader : ∀ {t : State} {r : Bool × State},
      (if lengthIsThere t.readBuffer then t.readHeader accepts else (false, t)) = r →
      r.2.delivered = t.delivered := by
    rintro t r rfl
    split
    next => exact readHeader_delivered _
    next => rfl
  rw [processDataHelper] at hs
  split at hs
  next hmissing =>
    split at hs
    next hshort =>
      cases hs
      rw [if_neg fun h : s.PublishIsThere => h.2.2.not_gt hshort]
    next havailable =>
      obtain ⟨s₁, hfinal, hs⟩ := Option.map_eq_some_iff.mp hs
      have hsame : s'.delivered = s₁.delivered := by
        split at hs
        next =>
          cases hs
          rfl
        next => exact @hheader { s₁ with
          readBuffer := s₁.readBuffer.drop s₁.readPosition, readPosition := 0 } (again, s') hs
      rw [hsame, finalizePacket_delivered hfinal]
      refine if_congr ?_ rfl rfl
      exact ⟨fun htype => ⟨htype, hmissing, not_lt.mp havailable⟩, And.left⟩
  next hmissing =>
    rw [if_neg fun h : s.PublishIsThere => hmissing h.2.1]
    exact @hheader s (again, s') (Option.some.inj hs)

end State

/-- What a turn delivers: one message at most, to the receivers of its topic, and nothing unless
it comes to a PUBLISH.  Of a PUBLISH that is as it should be, they get the payload. -/
structure Delivers (fromUtf8 : List UInt8 → QString) (t t' : State) : Prop where
  message : t'.delivered = t.delivered ∨ ∃ topic message,
    t'.delivered = t.delivered ++ (t.receivers topic).map fun k => (k, message)
  other : ¬ t.PublishIsThere → t'.delivered = t.delivered
  publish : ∀ topic payload, t.AtPublish topic payload →
    t'.delivered = t.delivered ++ (t.receivers (fromUtf8 topic)).map fun k => (k, payload)

theorem State.processDataHelper_delivered {s s' : State} (h : s.view.Ok accepts agree)
    {again : Bool} (hs : s.processDataHelper accepts fromUtf8 = some (again, s')) :
    Delivers fromUtf8 s s' := by
  have hfinal := processDataHelper_finalized hs
  refine ⟨?_, fun hnot => ?_, fun topic payload hpublish => ?_⟩
  · split at hfinal
    next =>
      rw [hfinal]
      exact finalizePublish_delivered h
    next => exact .inl hfinal
  · rw [hfinal, if_neg hnot]
  · rw [hfinal, if_pos hpublish.publishIsThere]
    exact hpublish.delivered

/-- Only the reader delivers. -/
theorem step_delivered {s s' : State} {a : Action} (hs : step accepts fromUtf8 s a = some s')
    (hread : ∀ bytes, a ≠ .readyRead bytes) : s'.delivered = s.delivered := by
  cases a with
  | clicked fields now flushed =>
      cases hs
      exact State.onConnectClicked_delivered _ _ _ _
  | connected =>
      obtain ⟨-, hs⟩ := Option.ite_none_right_eq_some.mp hs
      cases hs
      exact State.transportConnectionEstablished_delivered _
  | closed =>
      obtain ⟨-, hs⟩ := Option.ite_none_right_eq_some.mp hs
      cases hs
      exact State.transportConnectionClosed_delivered _
  | errorOccurred =>
      obtain ⟨-, hs⟩ := Option.ite_none_right_eq_some.mp hs
      cases hs
      exact State.closeConnection_delivered _ _
  | readyRead bytes => exact absurd rfl (hread bytes)
  | timeout =>
      obtain ⟨-, hs⟩ := Option.ite_none_right_eq_some.mp hs
      cases hs
      exact State.sendControlPingRequest_delivered _
  | thresholdsChanged =>
      cases hs
      exact State.sendThresholdConfig_delivered _

variable {config : EmbskyConfig} {clientId : QString}

/-- In every reachable state a message comes to a handler once at most.  While the settings page
shows a connection, it comes to the handlers whose filters match its topic and to no others, unless
a SUBSCRIBE could not be written.  The same holds at every turn of the reader, and a turn delivers
one message at most, to just these handlers. -/
theorem delivers_once {s : State} (h : (machine accepts fromUtf8 config clientId).Reachable s) :
    (∀ topic, DeliversOnce accepts s topic) ∧
    (∀ a s', step accepts fromUtf8 s a = some s' → (∀ bytes, a ≠ .readyRead bytes) →
      s'.delivered = s.delivered) ∧
    (s.socket = .connected → ∀ bytes t again t',
      Relation.ReflTransGen (State.Turn accepts fromUtf8)
        { s with readBuffer := s.readBuffer ++ bytes } t →
      t.processDataHelper accepts fromUtf8 = some (again, t') →
      (∀ topic, DeliversOnce accepts t topic) ∧ Delivers fromUtf8 t t') := by
  have hinv := reachable_inv h
  refine ⟨hinv.ok.deliversOnce, fun a s' => step_delivered,
    fun hsocket bytes t again t' hturns hturn => ?_⟩
  have hreading : State.Reading accepts False { s with readBuffer := s.readBuffer ++ bytes } :=
    ⟨⟨hinv.ok, hinv.connecting, .inl hsocket⟩, hinv.connack⟩
  have hok := (hreading.of_turns hturns).ok
  exact ⟨hok.deliversOnce, State.processDataHelper_delivered hok hturn⟩

/-- Behind the second connection there are eight slots, and a message comes to two pages.  The
header of a PUBLISH was read, and its bytes are there. -/
theorem delivers_once_reconnected :
    let fields : EmbskyConfig := ⟨[0x68], 1883, [0x75], [0x70], [0x63], 60, [0x61], [0x2b]⟩
    let accepts : Nat → Bool := fun _ => true
    let fromUtf8 : List UInt8 → QString := (·.map UInt8.toUInt16)
    let session : List Action := [.clicked fields 0 true, .connected, .readyRead [0x20, 2, 0, 0]]
    ∃ s t', (machine accepts fromUtf8 fields []).run
          (session ++ .closed :: session ++ [.readyRead [0x30, 4]]) = some s ∧
      (s.subscriptions.slots.length, s.receivers [0x61]) = (8, [.temp, .humi]) ∧
      ({ s with readBuffer := s.readBuffer ++ [0, 1, 0x61, 0x35] } : State).processDataHelper
        accepts fromUtf8 = some (false, t') ∧
      t'.delivered = [(.temp, [0x35]), (.humi, [0x35])] ∧
      (s.receivers [0x61]).Nodup ∧
      Delivers fromUtf8 { s with readBuffer := s.readBuffer ++ [0, 1, 0x61, 0x35] } t' := by
  intro fields accepts fromUtf8 session
  obtain ⟨s, hs, hturn⟩ := Option.bind_eq_some_iff.mp
    (by decide : ((machine accepts fromUtf8 fields []).run
        (session ++ .closed :: session ++ [.readyRead [0x30, 4]])).bind (fun s =>
          (({ s with readBuffer := s.readBuffer ++ [0, 1, 0x61, 0x35] } : State).processDataHelper
            accepts fromUtf8).map fun r => (r.1, r.2.delivered)) =
      some (false, [(.temp, [0x35]), (.humi, [0x35])]))
  obtain ⟨hreceivers, hsocket⟩ : (s.subscriptions.slots.length, s.receivers [0x61]) =
      (8, [.temp, .humi]) ∧ s.socket = .connected := by
    have hstate : ((machine accepts fromUtf8 fields []).run
        (session ++ .closed :: session ++ [.readyRead [0x30, 4]])).map (fun s =>
          ((s.subscriptions.slots.length, s.receivers [0x61]), s.socket)) =
        some ((8, [.temp, .humi]), .connected) := by decide
    rw [hs] at hstate
    exact Prod.mk.inj (Option.some.inj hstate)
  obtain ⟨⟨again, t'⟩, hturn, ht'⟩ := Option.map_eq_some_iff.mp hturn
  obtain ⟨rfl, hdelivered⟩ := Prod.mk.inj ht'
  obtain ⟨honce, -, hread⟩ := delivers_once ⟨_, hs⟩
  exact ⟨s, t', hs, hreceivers, hturn, hdelivered, (honce [0x61]).nodup,
    (hread hsocket _ _ _ _ .refl hturn).2⟩

end

end IotEdge.Mqtt
