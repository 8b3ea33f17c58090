import IotEdge.Monitor.MqttSubscriptions

/-!
# What reaches the pages

`View` is the part of the state that the pages and the messages depend on, and `View.Ok` what
holds of it in every state.  Whatever the socket does, and whatever bytes it brings, a step
leaves the view alone or does one of a few things to it (`Keeps`, `dropped`, `closed`,
`Accepted`).

`View.Ok.deliversOnce` is the result on the messages, and `pages_agree_iff` the one on the pages:
they show the state of the client, but for a click whose DISCONNECT cannot be written.
-/

namespace IotEdge.Mqtt

open Monitor

section

variable {accepts : Nat → Bool} {agree : Prop}

/-! ## Views -/

/-- Pages that were all told the same. -/
def Pages.all (b : Bool) : Pages := ⟨b, b, b, b⟩

/-- The subscriptions, the states and what the pages show. -/
structure View where
  internalState : InternalState
  subscriptions : Subscriptions
  clientState : ClientState
  pages : Pages
  config : EmbskyConfig

/-- The view of a state. -/
def State.view (s : State) : View :=
  ⟨s.internalState, s.subscriptions, s.client.state, s.pages, s.config⟩

namespace View

/-- The client is disconnected. -/
def dropped (v : View) : View := { v with clientState := .disconnected, pages := .all false }

/-- The connection is closed from this side. -/
def closed (v : View) : View :=
  { v.dropped with
    internalState := .brokerDisconnected
    subscriptions := v.subscriptions.cleared }

/-- What holds of every view.  With `agree` the settings page shows the state of the client. -/
structure Ok (accepts : Nat → Bool) (agree : Prop) (v : View) : Prop where
  overview : v.pages.overview = true ↔ v.clientState = .connected
  trend : v.pages.trend = true ↔ v.clientState = .connected
  alarm : v.pages.alarm = true ↔ v.clientState = .connected
  settings : v.pages.settings = true → v.clientState = .connected
  agrees : agree → v.clientState = .connected → v.pages.settings = true
  internal : v.clientState = .connected → v.internalState = .brokerConnected
  idle : v.internalState = .brokerConnecting ∨ v.internalState = .brokerWaitForConnectAck →
    v.subscriptions.active = []
  consistent : ∃ config, v.subscriptions.Consistent config ∧ (v.pages.settings = true →
    config = v.config ∧ ((∀ n, accepts n = true) → v.subscriptions.Complete config))

/-- The broker accepted the connection, and the topics were subscribed to. -/
def Accepted (accepts : Nat → Bool) (v v' : View) : Prop :=
  ∃ u, v' = ⟨.brokerConnected, u, .connected, .all true, v.config⟩ ∧ u.Consistent v.config ∧
    ((∀ n, accepts n = true) → u.Complete v.config)

variable {v v' : View}

/-- Without a connection the pages show none. -/
theorem Ok.pages_eq (h : v.Ok accepts agree) (hstate : v.clientState ≠ .connected) :
    v.pages = .all false := by
  obtain ⟨_, _, _, ⟨settings, overview, trend, alarm⟩, _⟩ := v
  have hoverview := Bool.eq_false_iff.mpr fun hp => hstate (h.overview.mp hp)
  have htrend := Bool.eq_false_iff.mpr fun hp => hstate (h.trend.mp hp)
  have halarm := Bool.eq_false_iff.mpr fun hp => hstate (h.alarm.mp hp)
  have hsettings := Bool.eq_false_iff.mpr fun hp => hstate (h.settings hp)
  exact (Pages.mk.injEq ..).mpr ⟨hsettings, hoverview, htrend, halarm⟩

/-- With `agree` all pages show the state of the client. -/
theorem Ok.pages_eq_all (h : v.Ok accepts agree) (hagree : agree) :
    v.pages = .all (v.clientState = .connected) := by
  by_cases hstate : v.clientState = .connected
  · rw [decide_eq_true hstate]
    obtain ⟨_, _, _, ⟨settings, overview, trend, alarm⟩, _⟩ := v
    exact (Pages.mk.injEq ..).mpr ⟨h.agrees hagree hstate, h.overview.mpr hstate,
      h.trend.mpr hstate, h.alarm.mpr hstate⟩
  · rw [decide_eq_false hstate]
    exact h.pages_eq hstate

theorem Ok.dropped (h : v.Ok accepts agree) : v.dropped.Ok accepts agree where
  overview := iff_of_false Bool.false_ne_true (by rintro ⟨⟩)
  trend := iff_of_false Bool.false_ne_true (by rintro ⟨⟩)
  alarm := iff_of_false Bool.false_ne_true (by rintro ⟨⟩)
  settings := by rintro ⟨⟩
  agrees := by rintro - ⟨⟩
  internal := by rintro ⟨⟩
  idle := h.idle
  consistent := by
    obtain ⟨config, hconsistent, -⟩ := h.consistent
    exact ⟨config, hconsistent, by rintro ⟨⟩⟩

theorem Ok.closed (h : v.Ok accepts agree) : v.closed.Ok accepts agree where
  overview := h.dropped.overview
  trend := h.dropped.trend
  alarm := h.dropped.alarm
  settings := by rintro ⟨⟩
  agrees := by rintro - ⟨⟩
  internal := by rintro ⟨⟩
  idle := fun _ => rfl
  consistent := by
    obtain ⟨config, hconsistent, -⟩ := h.consistent
    exact ⟨config, hconsistent.cleared, by rintro ⟨⟩⟩

theorem Accepted.ok (h : Accepted accepts v v') : v'.Ok accepts agree := by
  obtain ⟨u, rfl, hconsistent, hcomplete⟩ := h
  exact {
    overview := iff_of_true rfl rfl
    trend := iff_of_true rfl rfl
    alarm := iff_of_true rfl rfl
    settings := fun _ => rfl
    agrees := fun _ _ => rfl
    internal := fun _ => rfl
    idle := by rintro (⟨⟨⟩⟩ | ⟨⟨⟩⟩)
    consistent := ⟨v.config, hconsistent, fun _ => ⟨rfl, hcomplete⟩⟩ }

/-- The connection was made, and CONNECT is under way. -/
theorem Ok.established (h : v.Ok accepts agree) (hinternal : v.internalState = .brokerConnecting) :
    { v with internalState := .brokerWaitForConnectAck }.Ok accepts agree where
  overview := h.overview
  trend := h.trend
  alarm := h.alarm
  settings := h.settings
  agrees := h.agrees
  internal := by
    intro hstate
    cases hinternal.symm.trans (h.internal hstate)
  idle := fun _ => h.idle (.inl hinternal)
  consistent := h.consistent

/-- A new connection is tried. -/
theorem Ok.connecting (h : v.Ok accepts agree) (hstate : v.clientState ≠ .connected)
    (config : EmbskyConfig) :
    View.Ok accepts agree ⟨.brokerConnecting, v.subscriptions.cleared, .connecting, v.pages,
      config⟩ where
  overview := iff_of_false (fun hp => hstate (h.overview.mp hp)) (by rintro ⟨⟩)
  trend := iff_of_false (fun hp => hstate (h.trend.mp hp)) (by rintro ⟨⟩)
  alarm := iff_of_false (fun hp => hstate (h.alarm.mp hp)) (by rintro ⟨⟩)
  settings := fun hp => absurd (h.settings hp) hstate
  agrees := by rintro - ⟨⟩
  internal := by rintro ⟨⟩
  idle := fun _ => rfl
  consistent := by
    obtain ⟨config', hconsistent, -⟩ := h.consistent
    exact ⟨config', hconsistent.cleared, fun hp => absurd (h.settings hp) hstate⟩

/-- The fields of the page are taken over while it shows no connection. -/
theorem Ok.withConfig (h : v.Ok accepts agree) (hpage : v.pages.settings = false)
    (config : EmbskyConfig) : { v with config := config }.Ok accepts agree where
  overview := h.overview
  trend := h.trend
  alarm := h.alarm
  settings := h.settings
  agrees := h.agrees
  internal := h.internal
  idle := h.idle
  consistent := by
    obtain ⟨config', hconsistent, -⟩ := h.consistent
    exact ⟨config', hconsistent, fun hp => absurd (hpage.symm.trans hp) Bool.false_ne_true⟩

/-- The settings page shows no connection any more, and the client still has one. -/
theorem Ok.left (h : v.Ok accepts agree) (hagree : ¬ agree)
    (hinternal : v.internalState = .brokerConnected) :
    { v with
      subscriptions := v.subscriptions.cleared
      pages := { v.pages with settings := false } }.Ok accepts agree where
  overview := h.overview
  trend := h.trend
  alarm := h.alarm
  settings := by rintro ⟨⟩
  agrees := fun ha => absurd ha hagree
  internal := fun _ => hinternal
  idle := fun _ => rfl
  consistent := by
    obtain ⟨config', hconsistent, -⟩ := h.consistent
    exact ⟨config', hconsistent.cleared, by rintro ⟨⟩⟩

end View

/-! ## What a step does to the view -/

namespace State

variable {s s' s'' : State}

/-- The client is told that it is disconnected. -/
theorem setState_disconnected (h : s.client.state ≠ .connected → s.pages = .all false) :
    s.setState accepts .disconnected =
      { s with client := { s.client with state := .disconnected }, pages := .all false } := by
  rw [setState]
  split
  next hstate =>
    rw [← hstate, ← h (by rw [hstate]; rintro ⟨⟩)]
  next => rfl

/-- The same with an error, which the pages are told first. -/
theorem setStateAndError_disconnected (error : ClientError)
    (h : s.client.state ≠ .connected → s.pages = .all false) :
    s.setStateAndError accepts .disconnected error = { s with
      client := { s.client with
        state := .disconnected
        error := if error ≠ .noError then error else s.client.error }
      pages := .all false } := by
  rw [setStateAndError]
  split
  next hne =>
    rw [setError]
    split
    next herror =>
      subst herror
      rw [setState_disconnected h]
    next => rw [onMqttError, if_pos hne, setState_disconnected fun _ => rfl]
  next => rw [setState_disconnected h]

theorem closeConnection_eq (h : s.client.state ≠ .connected → s.pages = .all false)
    (error : ClientError) :
    s.closeConnection accepts error = { s with
      readBuffer := []
      readPosition := 0
      pingTimer := false
      pingTimeout := 0
      subscriptions := s.subscriptions.cleared
      internalState := .brokerDisconnected
      socket := .absent
      client := { s.client with
        state := .disconnected
        error := if error ≠ .noError then error else s.client.error }
      pages := .all false } :=
  setStateAndError_disconnected error h

theorem closeConnection_view (h : s.client.state ≠ .connected → s.pages = .all false)
    (error : ClientError) : (s.closeConnection accepts error).view = s.view.closed ∧
      (s.closeConnection accepts error).socket = .absent := by
  rw [closeConnection_eq h]
  exact ⟨rfl, rfl⟩

/-- A step of the reader leaves the view alone, or closes the connection. -/
def Keeps (s s' : State) : Prop :=
  s'.currentPacket = s.currentPacket ∧
    (s'.view = s.view ∧ s'.socket = s.socket ∧ s'.readBuffer = s.readBuffer ∧
        s.readPosition ≤ s'.readPosition ∨
      s'.view = s.view.closed ∧ s'.socket = .absent ∧ s'.readBuffer = [])

theorem Keeps.refl : Keeps s s := ⟨rfl, .inl ⟨rfl, rfl, rfl, Nat.le_refl _⟩⟩

theorem Keeps.trans (h : Keeps s s') (h' : Keeps s' s'') : Keeps s s'' := by
  obtain ⟨hpacket, h⟩ := h
  obtain ⟨hpacket', h'⟩ := h'
  refine ⟨hpacket'.trans hpacket, ?_⟩
  rcases h' with ⟨hview', hsocket', hbuffer', hposition'⟩ | ⟨hview', hclosed'⟩
  · rw [hview', hsocket', hbuffer']
    exact h.imp_left fun ⟨hview, hsocket, hbuffer, hposition⟩ =>
      ⟨hview, hsocket, hbuffer, hposition.trans hposition'⟩
  · refine .inr ⟨?_, hclosed'⟩
    rw [hview']
    rcases h with ⟨hview, -⟩ | ⟨hview, -⟩
    · rw [hview]
    · rw [hview]
      rfl

theorem Keeps.ok (h : Keeps s s') (hok : s.view.Ok accepts agree) : s'.view.Ok accepts agree := by
  rcases h.2 with ⟨hview, -⟩ | ⟨hview, -⟩
  · exact hview ▸ hok
  · exact hview ▸ hok.closed

theorem keeps_closeConnection (h : s.view.Ok accepts agree) (error : ClientError) :
    Keeps s (s.closeConnection accepts error) := by
  rw [closeConnection_eq h.pages_eq]
  exact ⟨rfl, .inr ⟨rfl, rfl, rfl⟩⟩

theorem Keeps.closeConnection (h : Keeps s s') (hok : s.view.Ok accepts agree)
    (error : ClientError) : (s'.closeConnection accepts error).view = s.view.closed ∧
      (s'.closeConnection accepts error).socket = .absent ∧
      (s'.closeConnection accepts error).readBuffer = [] := by
  rw [closeConnection_eq (h.ok hok).pages_eq]
  refine ⟨?_, rfl, rfl⟩
  rcases h.2 with ⟨hview, -⟩ | ⟨hview, -⟩
  · exact congrArg View.closed hview
  · exact congrArg View.closed hview

/-! ### The reader -/

theorem keeps_takeBuffer (h : s.view.Ok accepts agree) (size : Nat) :
    Keeps s (s.takeBuffer accepts size).2 := by
  rw [takeBuffer]
  split
  next => exact keeps_closeConnection h _
  next => exact ⟨rfl, .inl ⟨rfl, rfl, rfl, Nat.le_add_right _ _⟩⟩

theorem keeps_readBufferTyped (h : s.view.Ok accepts agree) (size : Nat) (counted : Bool) :
    Keeps s (s.readBufferTyped accepts size counted).2 := by
  have htake := keeps_takeBuffer h size
  rw [readBufferTyped]
  split
  next => exact .refl
  next =>
    split
    next heq =>
      rw [heq] at htake
      exact htake
    next heq =>
      rw [heq] at htake
      split
      next => exact htake.trans .refl
      next => exact htake

theorem keeps_readByteArray (h : s.view.Ok accepts agree) : Keeps s (s.readByteArray accepts).2 := by
  have hread := keeps_readBufferTyped h 2 true
  rw [readByteArray]
  generalize s.readBufferTyped accepts 2 true = r at hread ⊢
  obtain ⟨size, s₁⟩ := r
  have htake := hread.trans (keeps_takeBuffer (hread.ok h) size)
  simp only
  split
  next => exact hread
  next =>
    split
    next heq =>
      rw [heq] at htake
      exact htake
    next heq =>
      rw [heq] at htake
      exact htake.trans .refl

theorem keeps_variableByteInteger (fuel multiplier msgLength : Nat) (h : s.view.Ok accepts agree) :
    Keeps s (variableByteInteger accepts fuel multiplier msgLength s).2 := by
  induction fuel generalizing s multiplier msgLength with
  | zero =>
      have hread := keeps_readBufferTyped h 1 false
      exact hread.trans (keeps_closeConnection (hread.ok h) _)
  | succ fuel ih =>
      have hread := keeps_readBufferTyped h 1 false
      rw [variableByteInteger]
      generalize s.readBufferTyped accepts 1 false = r at hread ⊢
      obtain ⟨b, s₁⟩ := r
      simp only
      split
      next => exact hread.trans (ih _ _ (hread.ok h))
      next => exact hread

/-! ### The packets -/

theorem keeps_subackReasons (fuel : Nat) (h : s.view.Ok accepts agree)
    (hs : s.subackReasons accepts fuel = some s') : Keeps s s' := by
  induction fuel generalizing s with
  | zero => cases hs
  | succ fuel ih =>
      have hread := keeps_readBufferTyped h 1 true
      rw [subackReasons] at hs
      generalize s.readBufferTyped accepts 1 true = r at hread hs
      obtain ⟨reason, s₁⟩ := r
      simp only at hs
      have hreason : Keeps s (if reason ≤ 2 ∨ reason = 128 then s₁
          else s₁.closeConnection accepts .protocolViolation) := by
        split
        next => exact hread
        next => exact hread.trans (keeps_closeConnection (hread.ok h) _)
      generalize (if reason ≤ 2 ∨ reason = 128 then s₁
        else s₁.closeConnection accepts .protocolViolation) = s₂ at hreason hs
      split at hs
      next => exact hreason.trans (ih (hreason.ok h) hs)
      next =>
        cases hs
        exact hreason

theorem keeps_finalizeSuback (h : s.view.Ok accepts agree) (hs : s.finalizeSuback accepts = some s') :
    Keeps s s' := by
  have hread := keeps_readBufferTyped h 2 true
  rw [finalizeSuback] at hs
  generalize s.readBufferTyped accepts 2 true = r at hread hs
  obtain ⟨identifier, s₁⟩ := r
  simp only at hs
  split at hs
  next =>
    refine hread.trans ?_
    have hsub := keeps_subackReasons _ (by exact hread.ok h) hs
    exact Keeps.refl.trans hsub
  next =>
    cases hs
    exact hread

theorem keeps_finalizePublish (fromUtf8 : List UInt8 → QString) (h : s.view.Ok accepts agree) :
    Keeps s (s.finalizePublish accepts fromUtf8) := by
  have hread := keeps_readByteArray h
  rw [finalizePublish]
  generalize s.readByteArray accepts = r at hread ⊢
  obtain ⟨topic, s₁⟩ := r
  have hid : Keeps s (if 0 < s₁.currentQos then s₁.readBufferTyped accepts 2 true
      else (0, s₁)).2 := by
    split
    next => exact hread.trans (keeps_readBufferTyped (hread.ok h) 2 true)
    next => exact hread
  simp only
  generalize (if 0 < s₁.currentQos then s₁.readBufferTyped accepts 2 true else (0, s₁)) = r
    at hid ⊢
  obtain ⟨identifier, s₂⟩ := r
  have htake := hid.trans (keeps_takeBuffer (hid.ok h) s₂.missingData.toNat)
  simp only
  generalize s₂.takeBuffer accepts s₂.missingData.toNat = r at htake ⊢
  obtain ⟨message, s₃⟩ := r
  split
  next => exact htake.trans .refl
  next =>
    split
    next => exact htake.trans .refl
    next => exact htake.trans .refl

theorem keeps_finalizePubAckRecRelComp (h : s.view.Ok accepts agree) :
    Keeps s (s.finalizePubAckRecRelComp accepts) := by
  have hread := keeps_readBufferTyped h 2 true
  rw [finalizePubAckRecRelComp]
  generalize s.readBufferTyped accepts 2 true = r at hread ⊢
  obtain ⟨identifier, s₁⟩ := r
  simp only
  split
  next => exact hread.trans .refl
  next =>
    split
    next => exact hread.trans .refl
    next =>
      split
      next =>
        split
        next => exact hread.trans .refl
        next => exact hread.trans .refl
      next => exact hread

theorem keeps_finalizePingresp (h : s.view.Ok accepts agree) :
    Keeps s (s.finalizePingresp accepts) := by
  have hread := keeps_readBufferTyped h 1 true
  rw [finalizePingresp]
  generalize s.readBufferTyped accepts 1 true = r at hread ⊢
  obtain ⟨v, s₁⟩ := r
  simp only
  split
  next => exact hread.trans (keeps_closeConnection (hread.ok h) _)
  next => exact hread.trans .refl

/-- A packet that is not a CONNACK. -/
theorem keeps_finalizePacket {fromUtf8 : List UInt8 → QString} (h : s.view.Ok accepts agree)
    (hne : s.packetType ≠ 0x20) (hs : s.finalizePacket accepts fromUtf8 = some s') :
    Keeps s s' := by
  rw [finalizePacket, if_neg hne] at hs
  split at hs
  next => exact keeps_finalizeSuback h hs
  next =>
    split at hs
    next =>
      cases hs
      exact keeps_readBufferTyped h 2 true
    next =>
      split at hs
      next =>
        cases hs
        exact keeps_finalizePublish fromUtf8 h
      next =>
        split at hs
        next =>
          cases hs
          exact keeps_finalizePubAckRecRelComp h
        next =>
          split at hs
          next =>
            cases hs
            exact keeps_finalizePingresp h
          next =>
            cases hs
            exact keeps_closeConnection h _

/-! ### The first answer of the broker -/

/-- What is written changes no more of the view than the subscriptions. -/
theorem Wrote.view (h : Wrote s s') : s'.view = { s.view with subscriptions := s'.subscriptions } ∧
    s'.socket = s.socket ∧ s'.missingData = s.missingData ∧ s'.readBuffer = s.readBuffer ∧
    s'.readPosition = s.readPosition := by
  obtain ⟨_, _, _, _, _, _, rfl⟩ := h
  exact ⟨rfl, rfl, rfl, rfl, rfl⟩

theorem requestAlarmLogs_wrote (s : State) : Wrote s (s.requestAlarmLogs accepts) ∧
    (s.requestAlarmLogs accepts).subscriptions = s.subscriptions := by
  rw [requestAlarmLogs]
  split
  next => exact publish_wrote _ _ _
  next => exact ⟨.refl, rfl⟩

/-- The pages are told, and the topics are subscribed to. -/
theorem onMqttConnected_view {config : EmbskyConfig} (hu : s.subscriptions.Consistent config)
    (hactive : s.subscriptions.active = []) (hstate : s.client.state = .connected) :
    ∃ u : Subscriptions, (s.onMqttConnected accepts).view =
        { s.view with pages := .all true, subscriptions := u } ∧
      u.Consistent s.config ∧ ((∀ n, accepts n = true) → u.Complete s.config) ∧
      (s.onMqttConnected accepts).socket = s.socket ∧
      (s.onMqttConnected accepts).missingData = s.missingData ∧
      (s.onMqttConnected accepts).readBuffer = s.readBuffer ∧
      (s.onMqttConnected accepts).readPosition = s.readPosition := by
  obtain ⟨s₁, hs₁⟩ : ∃ s₁, s₁ = { s with pages := .all true } := ⟨_, rfl⟩
  have hsub : Subscribed accepts s₁ (s₁.subscribeTopics accepts)
      [.thresholds, .alarm, .humi, .temp] := by
    rw [hs₁]
    exact subscribeTopics_subscribed hu hactive hstate
  obtain ⟨hrequest, hsubscriptions⟩ := @requestAlarmLogs_wrote accepts
    (s₁.subscribeTopics accepts)
  obtain ⟨hview, hsocket, hmissing, hbuffer, hposition⟩ := (hsub.wrote.trans hrequest).view
  have hs' : s.onMqttConnected accepts =
      (s₁.subscribeTopics accepts).requestAlarmLogs accepts := by
    rw [hs₁]
    rfl
  have hconfig : s₁.config = s.config := by rw [hs₁]
  have hview₁ : s₁.view = { s.view with pages := .all true } := by
    rw [hs₁]
    rfl
  rw [hs']
  refine ⟨_, hview.trans (by rw [hview₁]), ?_, fun hall k hvalid => ?_,
    hsocket.trans (by rw [hs₁]), hmissing.trans (by rw [hs₁]), hbuffer.trans (by rw [hs₁]),
    hposition.trans (by rw [hs₁])⟩
  · rw [hsubscriptions, ← hconfig]
    exact hsub.consistent
  · rw [hsubscriptions]
    rw [← hconfig] at hvalid
    exact hsub.complete hall k (by cases k <;> decide) hvalid

/-- A session begins. -/
theorem setStateAndError_connected {config : EmbskyConfig}
    (hu : s.subscriptions.Consistent config) (hactive : s.subscriptions.active = [])
    (hstate : s.client.state ≠ .connected) (hinternal : s.internalState = .brokerConnected) :
    View.Accepted accepts s.view (s.setStateAndError accepts .connected .noError).view ∧
      (s.setStateAndError accepts .connected .noError).socket = s.socket ∧
      (s.setStateAndError accepts .connected .noError).missingData = s.missingData ∧
      (s.setStateAndError accepts .connected .noError).readBuffer = s.readBuffer ∧
      (s.setStateAndError accepts .connected .noError).readPosition = s.readPosition := by
  obtain ⟨u, hview, hconsistent, hcomplete, hsocket, hreader⟩ := @onMqttConnected_view accepts
    { s with client := { s.client with state := .connected } } config hu hactive rfl
  rw [setStateAndError, if_neg (not_not.mpr rfl), setState, if_neg hstate]
  refine ⟨⟨u, hview.trans ?_, hconsistent, hcomplete⟩, hsocket, hreader⟩
  rw [State.view, hinternal]
  rfl

/-- The next bytes of the packet are there. -/
theorem readBufferTyped_of_le {size : Nat} (hmissing : (size : Int) ≤ s.missingData)
    (havailable : size ≤ s.readBuffer.length - s.readPosition) :
    ∃ n s₁, s.readBufferTyped accepts size true = (n, s₁) ∧
      s₁ = { s with
        readPosition := s.readPosition + size
        missingData := s.missingData - size } := by
  rw [readBufferTyped, if_neg fun h => hmissing.not_gt h.2, takeBuffer,
    if_neg havailable.not_gt]
  exact ⟨_, _, rfl, rfl⟩

/-- The second part of `finalize_connack`. -/
theorem connectResult_cases (h : s.view.Ok accepts agree) (hactive : s.subscriptions.active = [])
    (hstate : s.client.state ≠ .connected) (hmissing : s.missingData = 0) (value : Nat) :
    let s' := if value ≠ 0 then s.closeConnection accepts (.code (.ofNat value))
      else { ({ s with internalState := .brokerConnected }.setStateAndError accepts .connected
        .noError) with pingTimer := true }
    s'.view = s.view.closed ∧ s'.socket = .absent ∧ s'.readBuffer = [] ∨
      View.Accepted accepts s.view s'.view ∧ s'.socket = s.socket ∧ s'.missingData = 0 ∧
        s'.readBuffer = s.readBuffer ∧ s'.readPosition = s.readPosition := by
  intro s'
  by_cases hvalue : value ≠ 0
  · have hs' : s' = s.closeConnection accepts (.code (.ofNat value)) := if_pos hvalue
    rw [hs']
    exact .inl (Keeps.refl.closeConnection h _)
  · obtain ⟨s₁, hs₁⟩ : ∃ s₁ : State, s₁ = { s with internalState := .brokerConnected } := ⟨_, rfl⟩
    have hs' : s' = { s₁.setStateAndError accepts .connected .noError with pingTimer := true } := by
      rw [hs₁]
      exact if_neg hvalue
    obtain ⟨config, hconsistent, -⟩ := h.consistent
    obtain ⟨haccepted, hsocket₁, hmissing₁, hbuffer₁, hposition₁⟩ := @setStateAndError_connected accepts s₁ config
      (by rw [hs₁]; exact hconsistent) (by rw [hs₁]; exact hactive) (by rw [hs₁]; exact hstate)
      (by rw [hs₁])
    rw [hs']
    refine .inr ⟨?_, hsocket₁.trans (by rw [hs₁]), hmissing₁.trans (by rw [hs₁]; exact hmissing),
      hbuffer₁.trans (by rw [hs₁]), hposition₁.trans (by rw [hs₁])⟩
    rw [hs₁] at haccepted ⊢
    exact haccepted

/-- CONNACK ends the attempt or begins a session. -/
theorem finalizeConnack_cases (h : s.view.Ok accepts agree) (hmissing : s.missingData = 2)
    (havailable : 2 ≤ s.readBuffer.length - s.readPosition)
    (hinternal : s.internalState = .brokerWaitForConnectAck) :
    (s.finalizeConnack accepts).view = s.view.closed ∧
        (s.finalizeConnack accepts).socket = .absent ∧
        (s.finalizeConnack accepts).readBuffer = [] ∨
      View.Accepted accepts s.view (s.finalizeConnack accepts).view ∧
        (s.finalizeConnack accepts).socket = s.socket ∧
        (s.finalizeConnack accepts).missingData = 0 ∧
        (s.finalizeConnack accepts).readBuffer = s.readBuffer ∧
        s.readPosition ≤ (s.finalizeConnack accepts).readPosition := by
  have hactive : s.subscriptions.active = [] := h.idle (.inr hinternal)
  have hstate : s.client.state ≠ .connected := by
    intro hstate
    cases hinternal.symm.trans (h.internal hstate)
  obtain ⟨ackFlags, s₁, hread, hs₁⟩ := @readBufferTyped_of_le accepts s 1
    (by rw [hmissing]; decide) (by omega)
  rw [finalizeConnack, hread]
  have hkeeps : Keeps s s₁ := by
    rw [hs₁]
    exact ⟨rfl, .inl ⟨rfl, rfl, rfl, Nat.le_add_right _ _⟩⟩
  simp only
  split
  next =>
    have htake := hkeeps.trans (keeps_takeBuffer (hkeeps.ok h) s₁.missingData.toNat)
    generalize s₁.takeBuffer accepts s₁.missingData.toNat = r at htake ⊢
    have hmissing : Keeps s { r.2 with missingData := 0 } := htake.trans .refl
    exact .inl (hmissing.closeConnection h _)
  next =>
    obtain ⟨s₂, hs₂⟩ : ∃ s₂, s₂ = if ackFlags = 1 then s₁ else s₁.cleanSubscriptions := ⟨_, rfl⟩
    rw [← hs₂]
    have hview₂ : s₂.view = s.view := by
      rw [hs₂, hs₁]
      split
      next => rfl
      next =>
        rw [State.view, cleanSubscriptions, ← hactive]
        rfl
    obtain ⟨hsocket₂, hmissing₂, hbuffer₂, hposition₂⟩ : s₂.socket = s.socket ∧
        s₂.missingData = 1 ∧ s₂.readBuffer = s.readBuffer ∧
        s₂.readPosition = s.readPosition + 1 := by
      rw [hs₂, hs₁]
      split
      next => exact ⟨rfl, by rw [hmissing]; rfl, rfl, rfl⟩
      next => exact ⟨rfl, by rw [cleanSubscriptions, hmissing]; rfl, rfl, rfl⟩
    obtain ⟨value, s₃, hread₃, hs₃⟩ := @readBufferTyped_of_le accepts s₂ 1
      (by rw [hmissing₂]; decide) (by rw [hbuffer₂, hposition₂]; omega)
    have hview₃ : s₃.view = s.view := by
      rw [hs₃]
      exact hview₂
    have hsocket₃ : s₃.socket = s.socket := by
      rw [hs₃]
      exact hsocket₂
    have hmissing₃ : s₃.missingData = 0 := by
      rw [hs₃, hmissing₂]
      rfl
    have hbuffer₃ : s₃.readBuffer = s.readBuffer := by
      rw [hs₃]
      exact hbuffer₂
    have hposition₃ : s.readPosition ≤ s₃.readPosition := by
      have hread : s₃.readPosition = s₂.readPosition + 1 := by rw [hs₃]
      rw [hread, hposition₂]
      omega
    have hcases := @connectResult_cases accepts agree s₃ (by rw [hview₃]; exact h)
      ((congrArg (fun v => v.subscriptions.active) hview₃).trans hactive)
      (fun hc => hstate ((congrArg View.clientState hview₃).symm.trans hc)) hmissing₃ value
    rw [hread₃, ← hview₃, ← hsocket₃]
    exact hcases.imp_right fun ⟨haccepted, hsocket, hzero, hbuffer, hposition⟩ =>
      ⟨haccepted, hsocket, hzero, hbuffer.trans hbuffer₃, hposition₃.trans_eq hposition.symm⟩

/-! ## The invariant -/

/-- What holds of every state.  A CONNACK that is read is one that was waited for. -/
structure Inv (accepts : Nat → Bool) (agree : Prop) (s : State) : Prop where
  ok : s.view.Ok accepts agree
  connecting : s.socket = .connecting → s.internalState = .brokerConnecting
  connack : s.socket = .connected → s.packetType = 0x20 → 0 < s.missingData →
    s.missingData = 2 ∧ s.internalState = .brokerWaitForConnectAck

/-- What holds while bytes are read.  When the connection is closed then, no bytes are left. -/
structure Reads (accepts : Nat → Bool) (agree : Prop) (s : State) : Prop where
  ok : s.view.Ok accepts agree
  connecting : s.socket = .connecting → s.internalState = .brokerConnecting
  live : s.socket = .connected ∨ s.readBuffer = []

/-- The two together. -/
structure Reading (accepts : Nat → Bool) (agree : Prop) (s : State) : Prop
    extends Reads accepts agree s, Inv accepts agree s

theorem Keeps.reads (h : Keeps s s') (hs : Reads accepts agree s) : Reads accepts agree s' := by
  refine ⟨h.ok hs.ok, fun hsocket => ?_, ?_⟩
  · rcases h.2 with ⟨hview, hsame, -⟩ | ⟨-, habsent, -⟩
    · rw [hsame] at hsocket
      exact (congrArg View.internalState hview).trans (hs.connecting hsocket)
    · cases habsent.symm.trans hsocket
  · rcases h.2 with ⟨-, hsame, hbuffer, -⟩ | ⟨-, -, hbuffer⟩
    · rw [hsame, hbuffer]
      exact hs.live
    · exact .inr hbuffer

theorem Keeps.packetType (h : Keeps s s') : s'.packetType = s.packetType := by
  rw [State.packetType, State.packetType, h.1]

theorem Reads.reading_of_ne (h : Reads accepts agree s) (hne : s.packetType ≠ 0x20) :
    Reading accepts agree s := ⟨h, fun _ htype => absurd htype hne⟩

theorem Reads.reading_of_absent (h : Reads accepts agree s) (habsent : s.socket = .absent) :
    Reading accepts agree s := ⟨h, fun hsocket => by cases habsent.symm.trans hsocket⟩

theorem Inv.closeConnection (h : Inv accepts agree s) (error : ClientError) :
    Inv accepts agree (s.closeConnection accepts error) := by
  rw [closeConnection_eq h.ok.pages_eq]
  exact ⟨h.ok.closed, by rintro ⟨⟩, by rintro ⟨⟩⟩

theorem Reads.closeConnection (h : Reads accepts agree s) (error : ClientError) :
    Reading accepts agree (s.closeConnection accepts error) :=
  ((keeps_closeConnection h.ok error).reads h).reading_of_absent
    (Keeps.refl.closeConnection h.ok error).2.1

theorem Reads.readFirst (h : Reads accepts agree s) : Reads accepts agree (s.readFirst accepts) := by
  have htake := keeps_takeBuffer h.ok 1
  rw [State.readFirst]
  split
  next heq =>
    rw [heq] at htake
    exact htake.reads h
  next heq =>
    rw [heq] at htake
    exact ⟨(htake.reads h).ok, (htake.reads h).connecting, (htake.reads h).live⟩

/-- After the first byte of a header: the packet is refused, or its length is kept.  That of a
CONNACK is two, and it was waited for. -/
def Headed (accepts : Nat → Bool) (s t : State) : Prop :=
  ∃ s', Keeps s s' ∧ (t = (s'.refuse accepts).2 ∨ ∃ n, t = { s' with missingData := n } ∧
    (s'.packetType = 0x20 → n = 2 ∧ s.internalState = .brokerWaitForConnectAck))

theorem readHeader_headed (h : (s.readFirst accepts).view.Ok accepts agree) :
    Headed accepts (s.readFirst accepts) (s.readHeader accepts).2 := by
  rw [State.readHeader]
  generalize s.readFirst accepts = s₁ at h ⊢
  have hrefuse : ∀ {s' : State}, Keeps s₁ s' → Headed accepts s₁ (s'.refuse accepts).2 :=
    fun hk => ⟨_, hk, .inl rfl⟩
  have hread := keeps_readBufferTyped h 1 false
  simp only
  split
  next htype =>
    split
    next => exact hrefuse .refl
    next hinternal =>
      have hkeeps := keeps_variableByteInteger 4 1 0 h
      rw [readVariableByteInteger]
      generalize variableByteInteger accepts 4 1 0 s₁ = r at hkeeps ⊢
      obtain ⟨payloadSize, s₂⟩ := r
      simp only
      split
      next => exact hrefuse hkeeps
      next hsize =>
        exact ⟨s₂, hkeeps, .inr ⟨_, rfl, fun _ => ⟨not_not.mp hsize, not_not.mp hinternal⟩⟩⟩
  next hne =>
    have hlength : ∀ {s' : State}, Keeps s₁ s' → ∀ n,
        Headed accepts s₁ { s' with missingData := n } :=
      fun hk n => ⟨_, hk, .inr ⟨n, rfl, fun htype => absurd (hk.packetType.symm.trans htype) hne⟩⟩
    split
    next => exact hlength hread _
    next =>
      split
      next =>
        obtain ⟨s₂, hs₂⟩ : ∃ s₂, s₂ =
            { s₁ with currentQos := (s₁.currentPacket &&& 6) >>> 1 } := ⟨_, rfl⟩
        have hqos : Keeps s₁ s₂ := by
          rw [hs₂]
          exact .refl
        rw [← hs₂]
        split
        next => exact hrefuse hqos
        next => exact hlength (hqos.trans (keeps_variableByteInteger 4 1 0 (hqos.ok h))) _
      next =>
        split
        next => exact hlength .refl _
        next =>
          generalize s₁.readBufferTyped accepts 1 false = r at hread ⊢
          obtain ⟨remaining, s₂⟩ := r
          simp only
          split
          next =>
            split
            next => exact hrefuse hread
            next =>
              split
              next => exact hrefuse hread
              next => exact hlength hread _
          next =>
            split
            next =>
              split
              next => exact hrefuse .refl
              next =>
                split
                next => exact hrefuse hread
                next => exact hlength hread _
            next => exact hrefuse .refl

/-- The first byte of a packet and its length. -/
theorem Reads.readHeader (h : Reads accepts agree s) :
    Reading accepts agree (s.readHeader accepts).2 := by
  have h₁ := h.readFirst
  obtain ⟨s', hkeeps, hrefuse | ⟨n, hlength, hconnack⟩⟩ := readHeader_headed h₁.ok
  · rw [hrefuse]
    exact (hkeeps.reads h₁).closeConnection _
  · rw [hlength]
    obtain ⟨hok, hconnecting, hlive⟩ := hkeeps.reads h₁
    refine ⟨⟨hok, hconnecting, hlive⟩, fun hsocket htype _ => ?_⟩
    obtain ⟨hn, hinternal⟩ := hconnack htype
    rcases hkeeps.2 with ⟨hview, -⟩ | ⟨-, habsent, -⟩
    · exact ⟨hn, (congrArg View.internalState hview).trans hinternal⟩
    · cases habsent.symm.trans hsocket

theorem Reading.connack_awaited (h : Reading accepts agree s) (hmissing : 0 < s.missingData)
    (havailable : s.missingData ≤ (s.readBuffer.length : Int) - s.readPosition)
    (htype : s.packetType = 0x20) : s.socket = .connected ∧ s.missingData = 2 ∧
      s.internalState = .brokerWaitForConnectAck := by
  have hsocket : s.socket = .connected := by
    refine h.live.resolve_right fun hnil => ?_
    rw [hnil, List.length_nil] at havailable
    omega
  exact ⟨hsocket, h.connack hsocket htype hmissing⟩

/-- A packet that is there. -/
theorem Reading.finalizePacket {fromUtf8 : List UInt8 → QString} (h : Reading accepts agree s)
    (hmissing : 0 < s.missingData)
    (havailable : s.missingData ≤ (s.readBuffer.length : Int) - s.readPosition)
    (hs : s.finalizePacket accepts fromUtf8 = some s') : Reading accepts agree s' := by
  by_cases htype : s.packetType = 0x20
  · rw [State.finalizePacket, if_pos htype] at hs
    cases hs
    obtain ⟨hsocket, htwo, hinternal⟩ := h.connack_awaited hmissing havailable htype
    rcases finalizeConnack_cases h.ok htwo (by omega) hinternal with
      ⟨hview, habsent, hbuffer⟩ | ⟨haccepted, hsame, hzero, -⟩
    · have hok : (s.finalizeConnack accepts).view.Ok accepts agree := hview ▸ h.ok.closed
      refine Reads.reading_of_absent ⟨hok, fun hc => ?_, .inr hbuffer⟩ habsent
      cases habsent.symm.trans hc
    · refine ⟨⟨haccepted.ok, fun hc => ?_, .inl (hsame.trans hsocket)⟩, fun _ _ hpos => ?_⟩
      · cases hsocket.symm.trans (hsame.symm.trans hc)
      · rw [hzero] at hpos
        cases hpos
  · have hkeeps := keeps_finalizePacket h.ok htype hs
    exact (hkeeps.reads h.toReads).reading_of_ne (hkeeps.packetType.symm ▸ htype)

theorem Reading.processDataHelper {fromUtf8 : List UInt8 → QString}
    (h : Reading accepts agree s) {again : Bool}
    (hs : s.processDataHelper accepts fromUtf8 = some (again, s')) :
    Reading accepts agree s' := by
  have hheader : ∀ {t : State} {r : Bool × State}, Reading accepts agree t →
      (if lengthIsThere t.readBuffer then t.readHeader accepts else (false, t)) = r →
      Reading accepts agree r.2 := by
    rintro t r ht rfl
    split
    next => exact ht.readHeader
    next => exact ht
  rw [State.processDataHelper] at hs
  split at hs
  next hmissing =>
    split at hs
    next =>
      cases hs
      exact h
    next havailable =>
      obtain ⟨s₁, hfinal, hs⟩ := Option.map_eq_some_iff.mp hs
      have h₁ := h.finalizePacket hmissing (not_lt.mp havailable) hfinal
      split at hs
      next =>
        cases hs
        exact h₁
      next =>
        have hdrop : Reading accepts agree
            { s₁ with readBuffer := s₁.readBuffer.drop s₁.readPosition, readPosition := 0 } := by
          refine ⟨⟨h₁.ok, h₁.connecting, h₁.live.imp_right fun hnil => ?_⟩, h₁.connack⟩
          rw [hnil, List.drop_nil]
        exact hheader (r := (again, s')) hdrop hs
  next => exact hheader (r := (again, s')) h (Option.some.inj hs)

theorem Reading.processData {fromUtf8 : List UInt8 → QString} {fuel : Nat}
    (h : Reading accepts agree s) (hs : s.processData accepts fromUtf8 fuel = some s') :
    Reading accepts agree s' := by
  induction fuel generalizing s with
  | zero => cases hs
  | succ fuel ih =>
      obtain ⟨⟨again, s₁⟩, hhelper, hs⟩ := Option.bind_eq_some_iff.mp hs
      have h₁ := h.processDataHelper hhelper
      simp only at hs
      split at hs
      next => exact ih h₁ hs
      next =>
        cases hs
        exact h₁

/-! ### The labels -/

theorem Inv.transportReadyRead {fromUtf8 : List UInt8 → QString} (h : Inv accepts agree s)
    (hsocket : s.socket = .connected) {bytes : List UInt8}
    (hs : s.transportReadyRead accepts fromUtf8 bytes = some s') : Inv accepts agree s' := by
  have hbytes : Reading accepts agree { s with readBuffer := s.readBuffer ++ bytes } :=
    ⟨⟨h.ok, h.connecting, .inl hsocket⟩, h.connack⟩
  exact (hbytes.processData hs).toInv

/-- The client is told that it is disconnected, with no part of a packet read. -/
theorem setStateAndError_disconnected_inv (h : s.view.Ok accepts agree) (error : ClientError)
    (hconnecting : s.socket ≠ .connecting) (hmissing : s.socket = .connected → s.missingData = 0) :
    Inv accepts agree (s.setStateAndError accepts .disconnected error) := by
  rw [setStateAndError_disconnected error h.pages_eq]
  refine ⟨h.dropped, fun hsocket => absurd hsocket hconnecting, fun hsocket _ hpos => ?_⟩
  rw [hmissing hsocket] at hpos
  cases hpos

/-- CONNECT is written, or the attempt ends. -/
theorem Inv.transportConnectionEstablished (h : Inv accepts agree s)
    (hsocket : s.socket = .connecting) :
    Inv accepts agree (s.transportConnectionEstablished accepts) := by
  have hok := h.ok.established (h.connecting hsocket)
  rw [State.transportConnectionEstablished,
    if_neg (not_not.mpr (h.connecting hsocket))]
  simp only [sendControlConnect, writePacketToTransport]
  split
  next => exact ⟨hok, by rintro ⟨⟩, by rintro - - ⟨⟩⟩
  next => exact setStateAndError_disconnected_inv hok _ (by rintro ⟨⟩) fun _ => rfl

theorem transportConnectionClosed_view (h : s.client.state ≠ .connected → s.pages = .all false) :
    (s.transportConnectionClosed accepts).view = s.view.dropped ∧
      (s.transportConnectionClosed accepts).socket = .closed := by
  rw [transportConnectionClosed]
  split
  next =>
    rw [setStateAndError_disconnected]
    · exact ⟨rfl, rfl⟩
    · exact h
  next =>
    rw [setStateAndError_disconnected]
    · exact ⟨rfl, rfl⟩
    · exact h

theorem Inv.transportConnectionClosed (h : Inv accepts agree s) :
    Inv accepts agree (s.transportConnectionClosed accepts) := by
  obtain ⟨hview, hsocket⟩ := @transportConnectionClosed_view accepts s h.ok.pages_eq
  refine ⟨hview ▸ h.ok.dropped, ?_, ?_⟩
  · rw [hsocket]
    rintro ⟨⟩
  · rw [hsocket]
    rintro ⟨⟩

theorem Inv.sendControlPingRequest (h : Inv accepts agree s) :
    Inv accepts agree (s.sendControlPingRequest accepts) := by
  rw [State.sendControlPingRequest]
  split
  next => exact h
  next =>
    split
    next => exact h.closeConnection _
    next =>
      simp only [writePacketToTransport]
      split
      next => exact ⟨h.ok, h.connecting, h.connack⟩
      next => exact ⟨h.ok, h.connecting, h.connack⟩

theorem Inv.sendThresholdConfig (h : Inv accepts agree s) :
    Inv accepts agree (s.sendThresholdConfig accepts) := by
  rw [State.sendThresholdConfig]
  split
  next =>
    obtain ⟨hwrote, hsubscriptions⟩ := @publish_wrote accepts s (utf16 "gateway/thresholds/set") 1
    obtain ⟨_, _, _, _, _, _, hs⟩ := hwrote
    rw [hs] at hsubscriptions ⊢
    cases hsubscriptions
    exact ⟨h.ok, h.connecting, h.connack⟩
  next => exact h

/-- A new connection is tried. -/
theorem Inv.connectToHost (h : Inv accepts agree s) :
    Inv accepts agree (s.connectToHost accepts) := by
  rw [State.connectToHost]
  split
  next => exact h
  next hstate =>
    have hstate : s.client.state = .disconnected := not_not.mp hstate
    split
    next =>
      refine setStateAndError_disconnected_inv ?_ _ (by rintro ⟨⟩)
        (by rintro ⟨⟩)
      exact h.ok
    next =>
      have hok := h.ok.connecting (by
        rw [State.view, hstate]
        rintro ⟨⟩) s.config
      simp only [setStateAndError, ne_eq, not_true_eq_false, if_false, setState, hstate,
        reduceCtorEq, cleanSubscriptions]
      exact ⟨hok, fun _ => rfl, by rintro ⟨⟩⟩

/-- The fields are taken over. -/
theorem Inv.onEmbskyConnectRequested (h : Inv accepts agree s) (hpage : s.pages.settings = false)
    (config : EmbskyConfig) :
    Inv accepts agree (s.onEmbskyConnectRequested accepts config) := by
  have hok := h.ok.withConfig hpage config
  rw [State.onEmbskyConnectRequested]
  simp only
  split
  next => exact Inv.connectToHost ⟨hok, h.connecting, h.connack⟩
  next => exact Inv.connectToHost ⟨hok, h.connecting, h.connack⟩

/-- The connection is closed behind DISCONNECT, and the settings page told again. -/
theorem forgetClosed_inv {t : State} (h : s.view.Ok accepts agree)
    (hclosed : t.view = s.view.closed ∧ (t.socket = .absent ∨ t.socket = .closed)) :
    Inv accepts agree { t with pages := { t.pages with settings := false } } := by
  obtain ⟨hview, hsocket⟩ := hclosed
  refine ⟨?_, fun hc => ?_, fun hc => ?_⟩
  · have hforget := congrArg (fun v : View => { v with pages := { v.pages with settings := false } })
      hview
    exact (congrArg (View.Ok accepts agree) hforget).mpr h.closed
  · rcases hsocket with hsocket | hsocket <;> cases hsocket.symm.trans hc
  · rcases hsocket with hsocket | hsocket <;> cases hsocket.symm.trans hc

theorem sendControlDisconnect_eq (s : State) (flushed : Bool) :
    ∃ sent, s.sendControlDisconnect accepts flushed =
      (let t := { s with
        pingTimer := false
        pingTimeout := 0
        subscriptions := s.subscriptions.cleared
        writes := s.writes + 1
        sent := sent }
      if accepts s.writes = true then
        let t := { t with internalState := .brokerDisconnected }
        if flushed = true then t.transportConnectionClosed accepts
        else t.closeConnection accepts .transportInvalid
      else t) := ⟨_, rfl⟩

/-- The button of a page that shows a connection.  The page forgets the connection whether or not
DISCONNECT is written.  If it is, the connection is closed. -/
theorem Inv.onConnectClicked_cases (h : Inv accepts agree s) (hpage : s.pages.settings = true)
    (fields : EmbskyConfig) (now : Int) (flushed : Bool) :
    let s' := s.onConnectClicked accepts fields now flushed
    accepts s.writes = true ∧ Inv accepts agree s' ∨
      accepts s.writes = false ∧
        s'.view = { s.view with
          subscriptions := s.view.subscriptions.cleared
          pages := { s.view.pages with settings := false } } ∧
        s'.socket = s.socket ∧ s'.packetType = s.packetType ∧
        s'.missingData = s.missingData := by
  have hstate : s.client.state = .connected := h.ok.settings hpage
  have hinternal : s.internalState = .brokerConnected := h.ok.internal hstate
  obtain ⟨sent, hsent⟩ := @sendControlDisconnect_eq accepts
    { s with pages := { s.pages with settings := false } } flushed
  intro s'
  have hs' : s' = s.onConnectClicked accepts fields now flushed := rfl
  rw [hs', onConnectClicked, if_pos hpage, onEmbskyDisconnectRequested, if_pos hstate,
    disconnectFromHost]
  simp only [hinternal] at hsent ⊢
  rw [hsent]
  by_cases hwritten : accepts s.writes = true
  · rw [if_pos hwritten]
    refine .inl ⟨hwritten, ?_⟩
    by_cases hflushed : flushed = true
    · rw [if_pos hflushed]
      refine forgetClosed_inv h.ok ((transportConnectionClosed_view ?_).imp_right .inr)
      exact fun hne => absurd hstate hne
    · rw [if_neg hflushed]
      refine forgetClosed_inv h.ok ((closeConnection_view ?_ _).imp_right .inl)
      exact fun hne => absurd hstate hne
  · rw [if_neg hwritten]
    exact .inr ⟨Bool.eq_false_iff.mpr hwritten, congrArg (fun i : InternalState => { s.view with
      internalState := i
      subscriptions := s.view.subscriptions.cleared
      pages := { s.view.pages with settings := false } }) hinternal.symm, rfl, rfl, rfl⟩

end State

/-! ## Runs -/

/-- A click on the button of a page that shows a connection gets its DISCONNECT written. -/
def TellsBroker (accepts : Nat → Bool) (s : State) : Action → Prop
  | .clicked .. => s.pages.settings = true → accepts s.writes = true
  | _ => True

variable {fromUtf8 : List UInt8 → QString} {config : EmbskyConfig} {clientId : QString}

open State

theorem start_inv : Inv accepts agree (start config clientId) where
  ok := {
    overview := iff_of_false Bool.false_ne_true (by rintro ⟨⟩)
    trend := iff_of_false Bool.false_ne_true (by rintro ⟨⟩)
    alarm := iff_of_false Bool.false_ne_true (by rintro ⟨⟩)
    settings := by rintro ⟨⟩
    agrees := by rintro - ⟨⟩
    internal := by rintro ⟨⟩
    idle := fun _ => rfl
    consistent := ⟨config, ⟨List.nodup_nil, List.nodup_nil, List.nodup_nil,
      fun _ hx => absurd hx List.not_mem_nil, fun _ hx => absurd hx List.not_mem_nil,
      fun _ hx => absurd hx List.not_mem_nil⟩, by rintro ⟨⟩⟩ }
  connecting := by rintro ⟨⟩
  connack := by rintro ⟨⟩

/-- A step keeps the invariant, and with `agree` it does if it tells the broker. -/
theorem State.Inv.step {s s' : State} {a : Action} (h : Inv accepts agree s)
    (hs : Mqtt.step accepts fromUtf8 s a = some s') (htells : agree → TellsBroker accepts s a) :
    Inv accepts agree s' := by
  cases a with
  | clicked fields now flushed =>
      cases hs
      by_cases hpage : s.pages.settings = true
      · rcases h.onConnectClicked_cases hpage fields now flushed with
          ⟨-, hinv⟩ | ⟨hnot, hview, hsocket, hpacket, hmissing⟩
        · exact hinv
        · have hinternal : s.internalState = .brokerConnected :=
            h.ok.internal (h.ok.settings hpage)
          refine ⟨?_, fun hc => ?_, fun hc htype hpos => ?_⟩
          · rw [hview]
            exact h.ok.left (fun ha => Bool.eq_false_iff.mp hnot (htells ha hpage)) hinternal
          · cases hinternal.symm.trans (h.connecting (hsocket.symm.trans hc))
          · rw [hmissing] at hpos
            have hwait := (h.connack (hsocket.symm.trans hc) (hpacket.symm.trans htype) hpos).2
            cases hinternal.symm.trans hwait
      · have hpage := Bool.eq_false_iff.mpr hpage
        rw [State.onConnectClicked, if_neg (by rw [hpage]; exact Bool.false_ne_true)]
        split
        next => exact h
        next => exact h.onEmbskyConnectRequested hpage _
  | connected =>
      obtain ⟨hsocket, hs⟩ := Option.ite_none_right_eq_some.mp hs
      cases hs
      exact h.transportConnectionEstablished hsocket
  | closed =>
      obtain ⟨-, hs⟩ := Option.ite_none_right_eq_some.mp hs
      cases hs
      exact h.transportConnectionClosed
  | errorOccurred =>
      obtain ⟨-, hs⟩ := Option.ite_none_right_eq_some.mp hs
      cases hs
      exact h.closeConnection _
  | readyRead bytes =>
      obtain ⟨hsocket, hs⟩ := Option.ite_none_right_eq_some.mp hs
      exact h.transportReadyRead hsocket hs
  | timeout =>
      obtain ⟨-, hs⟩ := Option.ite_none_right_eq_some.mp hs
      cases hs
      exact h.sendControlPingRequest
  | thresholdsChanged =>
      cases hs
      exact h.sendThresholdConfig

theorem reachable_inv {s : State} (h : (machine accepts fromUtf8 config clientId).Reachable s) :
    Inv accepts False s :=
  h.invariant start_inv fun hI hs => hI.step hs False.elim

/-- A message of the topic comes to a handler once at most.  While the settings page shows a
connection, it comes to the handlers whose filters match the topic and to no others, unless a
SUBSCRIBE could not be written. -/
structure DeliversOnce (accepts : Nat → Bool) (s : State) (topic : QString) : Prop where
  nodup : (s.receivers topic).Nodup
  matching : s.pages.settings = true → ∀ k ∈ s.receivers topic,
    topicFilterMatch (s.config.topicFilter k) topic false = true
  complete : s.pages.settings = true → (∀ n, accepts n = true) → ∀ k,
    topicFilterMatch (s.config.topicFilter k) topic false = true → k ∈ s.receivers topic

theorem View.Ok.deliversOnce {s : State} (h : s.view.Ok accepts agree) (topic : QString) :
    DeliversOnce accepts s topic := by
  obtain ⟨config', hu, hpage⟩ := h.consistent
  refine ⟨hu.nodup_receivers _, fun hsettings k hk => ?_, fun hsettings hall k hmatch => ?_⟩
  · obtain ⟨rfl, -⟩ := hpage hsettings
    obtain ⟨x, hx, hk⟩ := List.mem_flatMap.mp hk
    obtain ⟨hactive, hmatch⟩ := List.mem_filter.mp hx
    obtain ⟨y, hy, rfl⟩ := List.mem_map.mp hk
    obtain ⟨hslot, heq⟩ := List.mem_filter.mp hy
    rw [decide_eq_true_eq] at heq
    have hfilter : x.1 = s.config.topicFilter y.2 := hu.filter x hactive y.2 (heq ▸ hslot)
    rw [← hfilter]
    exact hmatch
  · obtain ⟨rfl, hcomplete⟩ := hpage hsettings
    obtain ⟨x, hactive, hslot⟩ := hcomplete hall k (topicFilterIsValid_of_match hmatch)
    refine List.mem_flatMap.mpr ⟨x, List.mem_filter.mpr ⟨hactive, ?_⟩, ?_⟩
    · rw [hu.filter x hactive k hslot]
      exact hmatch
    · exact List.mem_map.mpr ⟨_, List.mem_filter.mpr ⟨hslot, decide_eq_true rfl⟩, rfl⟩

/-- Behind a click whose DISCONNECT cannot be written the settings page shows no connection, and
the client has one. -/
theorem State.Inv.onConnectClicked_unwritten {s : State} (h : Inv accepts agree s)
    (hpage : s.pages.settings = true) (hrefused : accepts s.writes = false)
    (fields : EmbskyConfig) (now : Int) (flushed : Bool) :
    let s' := s.onConnectClicked accepts fields now flushed
    s'.pages.settings = false ∧ s'.client.state = .connected := by
  rcases h.onConnectClicked_cases hpage fields now flushed with ⟨hwritten, -⟩ | ⟨-, hview, -⟩
  · cases hwritten.symm.trans hrefused
  · exact ⟨congrArg (fun v : View => v.pages.settings) hview,
      (congrArg View.clientState hview).trans (h.ok.settings hpage)⟩

/-- Along a run the four pages show the state of the client in every state, if and only if every
click that ends a connection gets its DISCONNECT written.  Behind one that does not, the settings
page shows no connection while the client has one. -/
theorem pages_agree_iff {as : List Action} {s : State}
    (hrun : (machine accepts fromUtf8 config clientId).run as = some s) :
    ((machine accepts fromUtf8 config clientId).Always as
        (fun t => t.pages = .all (t.client.state = .connected)) ↔
      (machine accepts fromUtf8 config clientId).EachStep as (TellsBroker accepts)) ∧
    ∀ fields now flushed, s.pages.settings = true → accepts s.writes = false →
      ∃ s', Mqtt.step accepts fromUtf8 s (.clicked fields now flushed) = some s' ∧
        s'.pages.settings = false ∧ s'.client.state = .connected := by
  have hinv : Inv accepts False s := reachable_inv ⟨as, hrun⟩
  refine ⟨?_, fun fields now flushed hpage hrefused =>
    ⟨_, rfl, hinv.onConnectClicked_unwritten hpage hrefused fields now flushed⟩⟩
  refine Machine.always_iff_eachStep_of_invariant (I := Inv accepts True) start_inv ?_ ?_ ?_ hrun
  · intro t ht
    exact ht.ok.pages_eq_all trivial
  · intro t a t' ht hstep htells
    exact ht.step hstep fun _ => htells
  · intro t a t' ht hstep hnot hpages
    cases a with
    | clicked fields now flushed =>
        cases hstep
        obtain ⟨hpage, hlost⟩ := Classical.not_imp.mp hnot
        obtain ⟨hsettings, hstate⟩ := ht.onConnectClicked_unwritten hpage
          (Bool.eq_false_iff.mpr hlost) fields now flushed
        have hshown := (congrArg Pages.settings hpages).trans (decide_eq_true hstate)
        cases hsettings.symm.trans hshown
    | _ => exact hnot trivial

/-- CONNECT, the four SUBSCRIBEs and the request of the logs are written, and no packet behind
them.  The first click on the button connects, and one more leaves the pages apart. -/
theorem pages_agree_clicked :
    let fields : EmbskyConfig := ⟨[0x68], 1883, [0x75], [0x70], [0x63], 60, [0x61], [0x2b]⟩
    let accepts : Nat → Bool := fun n => n < 6
    let m := machine accepts (·.map UInt8.toUInt16) fields []
    let as : List Action := [.clicked fields 0 true, .connected, .readyRead [0x20, 2, 0, 0]]
    ∃ s, m.run as = some s ∧ (m.Always as (fun t => t.pages = .all (t.client.state = .connected)) ↔
        m.EachStep as (TellsBroker accepts)) ∧
      ∃ s', Mqtt.step accepts (·.map UInt8.toUInt16) s (.clicked fields 0 true) = some s' ∧
        s'.pages.settings = false ∧ s'.client.state = .connected := by
  intro fields accepts m as
  obtain ⟨s, hs, hpage⟩ := Option.map_eq_some_iff.mp
    (by decide : (m.run as).map (fun s => (s.pages.settings, s.writes)) = some (true, 6))
  obtain ⟨hsettings, hwrites⟩ := Prod.mk.inj hpage
  obtain ⟨hagree, hclicked⟩ := pages_agree_iff hs
  exact ⟨s, hs, hagree, hclicked fields 0 true hsettings (by rw [hwrites]; rfl)⟩

end

end IotEdge.Mqtt
