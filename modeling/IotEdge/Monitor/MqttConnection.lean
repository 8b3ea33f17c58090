import IotEdge.Lib.Machine
import IotEdge.Monitor.TopicFilter

/-!
# The connection to the broker

`mainWidget` has one `QMqttClient`, and that has one `QMqttConnection`.  This is the state of
the three as far as the messages go: the reader of the bytes that arrive, the subscriptions
and what their signals are connected to, the two states of the client and of its connection,
and what the pages show of them.  The protocol is MQTT 3.1.1 with a clean session, as
`setupMqtt` sets it, over a TCP socket.

Signals are calls.  A label is a click on the button of the settings page, a signal of the
socket or of the timer of the pings, or a limit that the user sets.  `accepts n` says if the
`n`-th packet that is written is taken.

The destructors, shared subscriptions, topic aliases and what else belongs to MQTT 5.0 are
left out, and so is `unsubscribe`, which the window never calls.
-/

namespace IotEdge.Mqtt

open Monitor

/-- A string constant. -/
def utf16 (s : String) : QString := s.toList.map fun c => c.val.toUInt16

/-- What a message of a topic goes to: the slots that `subscribeTopics` connects. -/
inductive Handler where
  | temp
  | humi
  | alarm
  | thresholds
deriving DecidableEq, Repr

/-- `QMqttConnection::InternalConnectionState`. -/
inductive InternalState where
  | brokerDisconnected
  | brokerConnecting
  | brokerWaitForConnectAck
  | brokerConnected
deriving DecidableEq, Repr

/-- `QMqttClient::ClientState`. -/
inductive ClientState where
  | disconnected
  | connecting
  | connected
deriving DecidableEq, Repr

/-- `QMqttClient::ClientError`.  The codes below 256 are those of a CONNACK. -/
inductive ClientError where
  | code (c : UInt8)
  | transportInvalid
  | protocolViolation
deriving DecidableEq, Repr

namespace ClientError

def noError : ClientError := .code 0
def serverUnavailable : ClientError := .code 3

end ClientError

/-- `EmbskyConfig`. -/
structure EmbskyConfig where
  brokerHost : QString
  brokerPort : UInt16
  username : QString
  password : QString
  clientId : QString
  keepAlive : UInt16
  tempTopic : QString
  humiTopic : QString
deriving DecidableEq, Repr

/-- The filter of a handler. -/
def EmbskyConfig.topicFilter (config : EmbskyConfig) : Handler → QString
  | .temp => config.tempTopic
  | .humi => config.humiTopic
  | .alarm => utf16 "gateway/alarm"
  | .thresholds => utf16 "gateway/thresholds"

/-- The TCP socket. -/
inductive Socket where
  /-- There is none whose signals are connected. -/
  | absent
  | connecting
  | connected
  /-- It was closed. -/
  | closed
deriving DecidableEq, Repr

/-- A packet that the client writes.  The message of a PUBLISH is left out. -/
inductive Control where
  | connect (clientId username password : QString) (keepAlive : UInt16)
  | subscribe (identifier : UInt16) (topic : QString) (qos : UInt8)
  | publish (identifier : UInt16) (topic : QString) (qos : UInt8)
  | puback (identifier : UInt16)
  | pubrec (identifier : UInt16)
  | pubrel (identifier : UInt16)
  | pubcomp (identifier : UInt16)
  | pingreq
  | disconnect
deriving DecidableEq, Repr

/-- `QMqttClientPrivate`. -/
structure Client where
  state : ClientState
  error : ClientError
  hostname : QString
  port : UInt16
  clientId : QString
  username : QString
  password : QString
  keepAlive : UInt16
deriving DecidableEq, Repr

/-- What the pages were told last. -/
structure Pages where
  /-- `m_isConnected` of the settings page, which decides what its button does. -/
  settings : Bool
  overview : Bool
  trend : Bool
  alarm : Bool
deriving DecidableEq, Repr

/-- The subscriptions.  An object is the number of those made before it. -/
structure Subscriptions where
  /-- `m_activeSubscriptions`. -/
  active : List (QString × Nat)
  /-- What `messageReceived` of each object is connected to. -/
  slots : List (Nat × Handler)
  /-- How many objects were made. -/
  created : Nat
deriving DecidableEq, Repr

/-- The window, its client and the connection. -/
structure State where
  internalState : InternalState
  subscriptions : Subscriptions
  client : Client
  pages : Pages
  /-- `m_embskyConfig`. -/
  config : EmbskyConfig
  socket : Socket
  readBuffer : List UInt8
  readPosition : Nat
  missingData : Int
  currentPacket : UInt8
  /-- `m_currentPublish.qos`. -/
  currentQos : UInt8
  pendingSubscriptionAck : List (UInt16 × Nat)
  pendingMessages : List UInt16
  pendingReleaseMessages : List UInt16
  packetIdentifierCounter : UInt16
  pingTimer : Bool
  pingTimeout : Int
  /-- How many packets were written or refused. -/
  writes : Nat
  /-- The packets that were written, in order. -/
  sent : List Control
  /-- The messages that came to a handler, in order. -/
  delivered : List (Handler × List UInt8)
deriving DecidableEq, Repr

/-- The window behind its constructor. -/
def start (config : EmbskyConfig) (clientId : QString) : State where
  internalState := .brokerDisconnected
  subscriptions := ⟨[], [], 0⟩
  client := ⟨.disconnected, .noError, [], 0, clientId, [], [], 60⟩
  pages := ⟨false, false, false, false⟩
  config := config
  socket := .absent
  readBuffer := []
  readPosition := 0
  missingData := 0
  currentPacket := 0
  currentQos := 0
  pendingSubscriptionAck := []
  pendingMessages := []
  pendingReleaseMessages := []
  packetIdentifierCounter := 1
  pingTimer := false
  pingTimeout := 0
  writes := 0
  sent := []
  delivered := []

section Connection

variable (accepts : Nat → Bool)

namespace State

/-! ## Packets that are written -/

/-- `writePacketToTransport`. -/
def writePacketToTransport (s : State) (p : Control) : Bool × State :=
  (accepts s.writes,
    { s with
      writes := s.writes + 1
      sent := if accepts s.writes then s.sent ++ [p] else s.sent })

/-- A packet with this identifier is under way. -/
def identifierIsPending (s : State) (identifier : UInt16) : Bool :=
  (s.pendingSubscriptionAck.map Prod.fst).contains identifier ||
    s.pendingMessages.contains identifier || s.pendingReleaseMessages.contains identifier

/-- The loop of `unusedPacketIdentifier`, which ends behind 65535 numbers at the latest. -/
def nextIdentifier (s : State) (lastIdentifier : UInt16) : Nat → UInt16 → UInt16
  | 0, counter => counter
  | fuel + 1, counter =>
      let counter := if counter = 65535 then 1 else counter + 1
      if lastIdentifier = counter then counter
      else if s.identifierIsPending counter then s.nextIdentifier lastIdentifier fuel counter
      else counter

/-- `unusedPacketIdentifier`. -/
def unusedPacketIdentifier (s : State) : UInt16 × State :=
  let counter := s.nextIdentifier s.packetIdentifierCounter 65535 s.packetIdentifierCounter
  (counter, { s with packetIdentifierCounter := counter })

/-- `sendControlConnect`. -/
def sendControlConnect (s : State) : Bool × State :=
  { s with internalState := .brokerWaitForConnectAck, missingData := 0 }.writePacketToTransport
    accepts (.connect s.client.clientId s.client.username s.client.password s.client.keepAlive)

/-- `sendControlPublish`. -/
def sendControlPublish (s : State) (topic : QString) (qos : UInt8) : State :=
  if topicNameIsValid topic then
    let (identifier, s) := if 0 < qos then s.unusedPacketIdentifier else (0, s)
    let s := if 0 < qos then
        { s with pendingMessages := s.pendingMessages.filter (· ≠ identifier) ++ [identifier] }
      else s
    let (written, s) := s.writePacketToTransport accepts (.publish identifier topic qos)
    if !written && 0 < qos then
      { s with pendingMessages := s.pendingMessages.filter (· ≠ identifier) }
    else s
  else s

/-- `QMqttClient::publish`. -/
def publish (s : State) (topic : QString) (qos : UInt8) : State :=
  if s.client.state ≠ .connected then s else s.sendControlPublish accepts topic qos

/-- `findActiveSubscription`. -/
def findActiveSubscription (s : State) (topic : QString) : Option Nat :=
  (s.subscriptions.active.find? fun subscription => subscription.1 = topic).map Prod.snd

/-- `sendControlSubscribe`. -/
def sendControlSubscribe (s : State) (topic : QString) (qos : UInt8) : Option Nat × State :=
  if !topicFilterIsValid topic || 2 < qos then (none, s)
  else
    match s.findActiveSubscription topic with
    | some sub => (some sub, s)
    | none =>
        let (identifier, s) := s.unusedPacketIdentifier
        let result := s.subscriptions.created
        let s := { s with subscriptions := { s.subscriptions with created := result + 1 } }
        let (written, s) := s.writePacketToTransport accepts (.subscribe identifier topic qos)
        if written then
          (some result, { s with
            pendingSubscriptionAck :=
              s.pendingSubscriptionAck.filter (·.1 ≠ identifier) ++ [(identifier, result)]
            subscriptions := { s.subscriptions with
              active := s.subscriptions.active ++ [(topic, result)] } })
        else (none, s)

/-- `QMqttClient::subscribe`. -/
def subscribe (s : State) (topic : QString) (qos : UInt8) : Option Nat × State :=
  if s.client.state ≠ .connected then (none, s) else s.sendControlSubscribe accepts topic qos

/-! ## What the window does -/

/-- One of the four parts of `subscribeTopics`. -/
def subscribeHandler (s : State) (h : Handler) (qos : UInt8) : State :=
  match s.subscribe accepts (s.config.topicFilter h) qos with
  | (some sub, s) =>
      { s with subscriptions := { s.subscriptions with slots := s.subscriptions.slots ++ [(sub, h)] } }
  | (none, s) => s

/-- `mainWidget::subscribeTopics`. -/
def subscribeTopics (s : State) : State :=
  let s := if s.config.tempTopic ≠ [] then s.subscribeHandler accepts .temp 0 else s
  let s := if s.config.humiTopic ≠ [] then s.subscribeHandler accepts .humi 0 else s
  let s := s.subscribeHandler accepts .alarm 1
  s.subscribeHandler accepts .thresholds 1

/-- `mainWidget::requestAlarmLogs`. -/
def requestAlarmLogs (s : State) : State :=
  if s.client.state = .connected then s.publish accepts (utf16 "gateway/alarm/req") 1 else s

/-- `mainWidget::sendThresholdConfig`. -/
def sendThresholdConfig (s : State) : State :=
  if s.client.state = .connected then s.publish accepts (utf16 "gateway/thresholds/set") 1 else s

/-- `mainWidget::onMqttConnected`. -/
def onMqttConnected (s : State) : State :=
  let s := { s with pages := ⟨true, true, true, true⟩ }
  (s.subscribeTopics accepts).requestAlarmLogs accepts

/-- `mainWidget::onMqttDisconnected`. -/
def onMqttDisconnected (s : State) : State := { s with pages := ⟨false, false, false, false⟩ }

/-- `mainWidget::onMqttError`. -/
def onMqttError (s : State) (error : ClientError) : State :=
  if error ≠ .noError then { s with pages := ⟨false, false, false, false⟩ } else s

/-! ## The states of the client -/

/-- `QMqttClient::setState`. -/
def setState (s : State) (state : ClientState) : State :=
  if s.client.state = state then s
  else
    let s := { s with client := { s.client with state := state } }
    match state with
    | .disconnected => s.onMqttDisconnected
    | .connected => s.onMqttConnected accepts
    | .connecting => s

/-- `QMqttClient::setError`. -/
def setError (s : State) (error : ClientError) : State :=
  if s.client.error = error then s
  else { s with client := { s.client with error := error } }.onMqttError error

/-- `QMqttClientPrivate::setStateAndError`. -/
def setStateAndError (s : State) (state : ClientState) (error : ClientError) : State :=
  let s := if error ≠ .noError then s.setError error else s
  s.setState accepts state

/-- `cleanSubscriptions`. -/
def cleanSubscriptions (s : State) : State :=
  { s with
    pendingSubscriptionAck := []
    subscriptions := { s.subscriptions with active := [] } }

/-- `closeConnection`. -/
def closeConnection (s : State) (error : ClientError) : State :=
  { s with
    readBuffer := []
    readPosition := 0
    pingTimer := false
    pingTimeout := 0
    subscriptions := { s.subscriptions with active := [] }
    internalState := .brokerDisconnected
    socket := .absent }.setStateAndError accepts .disconnected error

/-! ## The bytes that are read -/

/-- `readBuffer`, with the bytes it copies. -/
def takeBuffer (s : State) (size : Nat) : Option (List UInt8) × State :=
  if s.readBuffer.length - s.readPosition < size then
    (none, s.closeConnection accepts .protocolViolation)
  else
    (some ((s.readBuffer.drop s.readPosition).take size),
      { s with readPosition := s.readPosition + size })

/-- `readBufferTyped` of an integer with `size` bytes, the first one highest.  `counted` says
if it takes them from `m_missingData`. -/
def readBufferTyped (s : State) (size : Nat) (counted : Bool) : Nat × State :=
  if counted ∧ s.missingData < size then (0, s)
  else
    match s.takeBuffer accepts size with
    | (none, s) => (0, s)
    | (some bytes, s) =>
        (bytes.foldl (fun n b => n * 256 + b.toNat) 0,
          if counted then { s with missingData := s.missingData - size } else s)

/-- `readBufferTyped` of a byte array. -/
def readByteArray (s : State) : List UInt8 × State :=
  let (size, s) := s.readBufferTyped accepts 2 true
  if s.missingData < size then ([], s)
  else
    match s.takeBuffer accepts size with
    | (none, s) => (List.replicate size 0, s)
    | (some bytes, s) => (bytes, { s with missingData := s.missingData - size })

/-- The loop of `readVariableByteInteger`.  Behind the fifth byte it gives up. -/
def variableByteInteger : Nat → Nat → Nat → State → Int × State
  | 0, _, _, s =>
      let (_, s) := s.readBufferTyped accepts 1 false
      (-1, s.closeConnection accepts .protocolViolation)
  | fuel + 1, multiplier, msgLength, s =>
      let (b, s) := s.readBufferTyped accepts 1 false
      let msgLength := msgLength + b % 128 * multiplier
      if 128 ≤ b then variableByteInteger fuel (multiplier * 128) msgLength s
      else (msgLength, s)

/-- `readVariableByteInteger`. -/
def readVariableByteInteger (s : State) : Int × State := variableByteInteger accepts 4 1 0 s

/-! ## Packets that are read -/

/-- The packet types, as the high half of the first byte. -/
def packetType (s : State) : UInt8 := s.currentPacket &&& 0xF0

/-- `finalize_connack`. -/
def finalizeConnack (s : State) : State :=
  let (ackFlags, s) := s.readBufferTyped accepts 1 true
  if 1 < ackFlags then
    let (_, s) := s.takeBuffer accepts s.missingData.toNat
    { s with missingData := 0 }.closeConnection accepts .protocolViolation
  else
    let s := if ackFlags = 1 then s else s.cleanSubscriptions
    let (connectResultValue, s) := s.readBufferTyped accepts 1 true
    if connectResultValue ≠ 0 then
      s.closeConnection accepts (.code (.ofNat connectResultValue))
    else
      let s := { s with internalState := .brokerConnected }.setStateAndError accepts .connected
        .noError
      { s with pingTimer := true }

/-- The loop of `finalize_suback`, which has no end when it closes the connection with reasons
left. -/
def subackReasons : Nat → State → Option State
  | 0, _ => none
  | fuel + 1, s =>
      let (reason, s) := s.readBufferTyped accepts 1 true
      let s := if reason ≤ 2 ∨ reason = 128 then s
        else s.closeConnection accepts .protocolViolation
      if 0 < s.missingData then subackReasons fuel s else some s

/-- `finalize_suback`. -/
def finalizeSuback (s : State) : Option State :=
  let (identifier, s) := s.readBufferTyped accepts 2 true
  let identifier : UInt16 := .ofNat identifier
  if (s.pendingSubscriptionAck.map Prod.fst).contains identifier then
    let s := { s with
      pendingSubscriptionAck := s.pendingSubscriptionAck.filter (·.1 ≠ identifier) }
    s.subackReasons accepts (s.missingData.toNat + 1)
  else some s

/-- The slots that the message of a topic is for.  A `QMultiHash` has no order of its own. -/
def receivers (s : State) (topic : QString) : List Handler :=
  (s.subscriptions.active.filter fun subscription =>
      topicFilterMatch subscription.1 topic false).flatMap fun subscription =>
    (s.subscriptions.slots.filter (·.1 = subscription.2)).map Prod.snd

/-- `finalize_publish`, where `fromUtf8` is the function of `QString`. -/
def finalizePublish (fromUtf8 : List UInt8 → QString) (s : State) : State :=
  let (topic, s) := s.readByteArray accepts
  let (identifier, s) := if 0 < s.currentQos then s.readBufferTyped accepts 2 true else (0, s)
  let payloadLength := s.missingData
  let (message, s) := s.takeBuffer accepts payloadLength.toNat
  let s := { s with missingData := s.missingData - payloadLength }
  let s := { s with
    delivered := s.delivered ++
      (s.receivers (fromUtf8 topic)).map fun h => (h, message.getD []) }
  if s.currentQos = 1 then (s.writePacketToTransport accepts (.puback (.ofNat identifier))).2
  else if s.currentQos = 2 then (s.writePacketToTransport accepts (.pubrec (.ofNat identifier))).2
  else s

/-- `finalize_pubAckRecRelComp`. -/
def finalizePubAckRecRelComp (s : State) : State :=
  let (identifier, s) := s.readBufferTyped accepts 2 true
  let identifier : UInt16 := .ofNat identifier
  if s.packetType = 0x60 then (s.writePacketToTransport accepts (.pubcomp identifier)).2
  else if s.packetType = 0x70 then
    { s with pendingReleaseMessages := s.pendingReleaseMessages.filter (· ≠ identifier) }
  else if s.pendingMessages.contains identifier then
    let s := { s with pendingMessages := s.pendingMessages.filter (· ≠ identifier) }
    if s.packetType = 0x50 then
      let s := { s with
        pendingReleaseMessages :=
          s.pendingReleaseMessages.filter (· ≠ identifier) ++ [identifier] }
      (s.writePacketToTransport accepts (.pubrel identifier)).2
    else s
  else s

/-- `finalize_pingresp`. -/
def finalizePingresp (s : State) : State :=
  let (v, s) := s.readBufferTyped accepts 1 true
  if v ≠ 0 then s.closeConnection accepts .protocolViolation
  else { s with pingTimeout := s.pingTimeout - 1 }

/-- `finalize_unsuback`, with no UNSUBSCRIBE under way. -/
def finalizeUnsuback (s : State) : State := (s.readBufferTyped accepts 2 true).2

/-- The first part of `processDataHelper`, when the packet is there. -/
def finalizePacket (fromUtf8 : List UInt8 → QString) (s : State) : Option State :=
  if s.packetType = 0x20 then some (s.finalizeConnack accepts)
  else if s.packetType = 0x90 then s.finalizeSuback accepts
  else if s.packetType = 0xB0 then some (s.finalizeUnsuback accepts)
  else if s.packetType = 0x30 then some (s.finalizePublish accepts fromUtf8)
  else if s.packetType = 0x40 ∨ s.packetType = 0x50 ∨ s.packetType = 0x60 ∨ s.packetType = 0x70
    then some (s.finalizePubAckRecRelComp accepts)
  else if s.packetType = 0xD0 then some (s.finalizePingresp accepts)
  else some (s.closeConnection accepts .protocolViolation)

/-- The switch over the size of the buffer: it may end in the length of a packet. -/
def lengthIsThere (buffer : List UInt8) : Bool :=
  match buffer with
  | [] | [_] => false
  | [_, b] => b < 128
  | [_, b, c] => b < 128 ∨ c < 128
  | [_, b, c, d] => b < 128 ∨ c < 128 ∨ d < 128
  | _ => true

/-- `processDataHelper` closes the connection. -/
def refuse (s : State) : Bool × State := (false, s.closeConnection accepts .protocolViolation)

/-- The first byte of a packet. -/
def readFirst (s : State) : State :=
  match s.takeBuffer accepts 1 with
  | (none, s) => s
  | (some bytes, s) => { s with currentPacket := bytes.headD 0 }

/-- The last part of `processDataHelper`: the first byte and the length of a packet. -/
def readHeader (s : State) : Bool × State :=
  let s := s.readFirst accepts
  if s.packetType = 0x20 then
    if s.internalState ≠ .brokerWaitForConnectAck then s.refuse accepts
    else
      let (payloadSize, s) := s.readVariableByteInteger accepts
      if payloadSize ≠ 2 then s.refuse accepts
      else (true, { s with missingData := payloadSize })
  else if s.packetType = 0x90 then
    let (remaining, s) := s.readBufferTyped accepts 1 false
    (true, { s with missingData := remaining })
  else if s.packetType = 0x30 then
    let s : State := { s with currentQos := (s.currentPacket &&& 6) >>> 1 }
    if (s.currentQos = 0 ∧ s.currentPacket &&& 8 ≠ 0) ∨ 2 < s.currentQos then s.refuse accepts
    else
      let (missingData, s) := s.readVariableByteInteger accepts
      (missingData ≠ -1, { s with missingData := missingData })
  else if s.packetType = 0xD0 then (true, { s with missingData := 1 })
  else if s.packetType = 0x60 then
    let (remaining, s) := s.readBufferTyped accepts 1 false
    if remaining ≠ 2 then s.refuse accepts
    else if s.currentPacket &&& 0x0F ≠ 2 then s.refuse accepts
    else (true, { s with missingData := 2 })
  else if s.packetType = 0xB0 ∨ s.packetType = 0x40 ∨ s.packetType = 0x50 ∨ s.packetType = 0x70
    then
    if s.currentPacket &&& 0x0F ≠ 0 then s.refuse accepts
    else
      let (remaining, s) := s.readBufferTyped accepts 1 false
      if remaining ≠ 2 then s.refuse accepts
      else (true, { s with missingData := remaining })
  else s.refuse accepts

/-- `processDataHelper`.  It has no result if `finalize_suback` does not end. -/
def processDataHelper (fromUtf8 : List UInt8 → QString) (s : State) : Option (Bool × State) :=
  let header (s : State) : Bool × State :=
    if lengthIsThere s.readBuffer then s.readHeader accepts else (false, s)
  if 0 < s.missingData then
    if (s.readBuffer.length : Int) - s.readPosition < s.missingData then some (false, s)
    else
      (s.finalizePacket accepts fromUtf8).map fun s =>
        if s.internalState = .brokerDisconnected then (false, s)
        else header { s with readBuffer := s.readBuffer.drop s.readPosition, readPosition := 0 }
  else some (header s)

/-- `processData`, with a bound on its turns. -/
def processData (fromUtf8 : List UInt8 → QString) : Nat → State → Option State
  | 0, _ => none
  | fuel + 1, s =>
      (s.processDataHelper accepts fromUtf8).bind fun (again, s) =>
        if again then processData fromUtf8 fuel s else some s

/-! ## Signals of the socket and of the timer -/

/-- `transportReadyRead`. -/
def transportReadyRead (fromUtf8 : List UInt8 → QString) (s : State) (bytes : List UInt8) :
    Option State :=
  let s := { s with readBuffer := s.readBuffer ++ bytes }
  s.processData accepts fromUtf8 (s.readBuffer.length + 3)

/-- `transportConnectionEstablished`. -/
def transportConnectionEstablished (s : State) : State :=
  let s := { s with socket := .connected }
  if s.internalState ≠ .brokerConnecting then s
  else
    let (written, s) := s.sendControlConnect accepts
    if written then s else s.setStateAndError accepts .disconnected .transportInvalid

/-- `transportConnectionClosed`. -/
def transportConnectionClosed (s : State) : State :=
  let s := { s with
    readBuffer := []
    readPosition := 0
    pingTimer := false
    pingTimeout := 0
    socket := .closed }
  if s.internalState = .brokerDisconnected then
    s.setStateAndError accepts .disconnected .noError
  else s.setStateAndError accepts .disconnected .transportInvalid

/-- `sendControlPingRequest`, from the timer. -/
def sendControlPingRequest (s : State) : State :=
  if s.internalState ≠ .brokerConnected then s
  else if 1 < s.pingTimeout then s.closeConnection accepts .serverUnavailable
  else
    let (written, s) := s.writePacketToTransport accepts .pingreq
    if written then { s with pingTimeout := s.pingTimeout + 1 } else s

/-! ## The button -/

/-- `sendControlDisconnect`.  `flushed` says if `waitForBytesWritten` succeeds; then the socket
is closed, with its signal.  If it fails, the socket signals the error before it returns, and
`transportError` closes the connection. -/
def sendControlDisconnect (s : State) (flushed : Bool) : State :=
  let s := { s with
    pingTimer := false
    pingTimeout := 0
    subscriptions := { s.subscriptions with active := [] } }
  let (written, s) := s.writePacketToTransport accepts .disconnect
  if written then
    let s := { s with internalState := .brokerDisconnected }
    if flushed then s.transportConnectionClosed accepts
    else s.closeConnection accepts .transportInvalid
  else s

/-- `QMqttClient::disconnectFromHost`. -/
def disconnectFromHost (s : State) (flushed : Bool) : State :=
  match s.internalState with
  | .brokerConnected => s.sendControlDisconnect accepts flushed
  | .brokerDisconnected => s
  | .brokerConnecting | .brokerWaitForConnectAck => s.transportConnectionClosed accepts

/-- `QMqttClient::connectToHost`.  A new socket takes the place of the old one. -/
def connectToHost (s : State) : State :=
  if s.client.state ≠ .disconnected then s
  else if s.client.hostname = [] ∨ s.client.port = 0 then
    { s with socket := .absent }.setStateAndError accepts .disconnected .transportInvalid
  else
    let s := { s with socket := .connecting, client := { s.client with error := .noError } }
    let s := s.setStateAndError accepts .connecting .noError
    { s.cleanSubscriptions with internalState := .brokerConnecting }

/-- `mainWidget::onEmbskyConnectRequested`.  The setters of the client do nothing unless it is
disconnected. -/
def onEmbskyConnectRequested (s : State) (config : EmbskyConfig) : State :=
  let s := { s with config := config }
  let s := if s.client.state ≠ .disconnected then s
    else { s with client := { s.client with
      hostname := config.brokerHost
      port := config.brokerPort
      username := config.username
      password := config.password
      clientId := config.clientId
      keepAlive := config.keepAlive } }
  s.connectToHost accepts

/-- `mainWidget::onEmbskyDisconnectRequested`. -/
def onEmbskyDisconnectRequested (s : State) (flushed : Bool) : State :=
  let s := if s.client.state = .connected then s.disconnectFromHost accepts flushed else s
  { s with pages := { s.pages with settings := false } }

/-- `SettingsPage::onConnectClicked`, with what is in the fields of the page and the clock. -/
def onConnectClicked (s : State) (fields : EmbskyConfig) (now : Int) (flushed : Bool) : State :=
  if s.pages.settings then
    { s with pages := { s.pages with settings := false } }.onEmbskyDisconnectRequested accepts
      flushed
  else if fields.brokerHost = [] ∨ fields.username = [] ∨ fields.password = [] then s
  else
    let config := if fields.clientId = [] then
        { fields with clientId := utf16 ("qt_gateway_" ++ toString now) }
      else fields
    s.onEmbskyConnectRequested accepts config

end State

/-! ## Steps -/

/-- The labels. -/
inductive Action where
  /-- The button is clicked, with what the fields hold, the clock in seconds, and what
  `waitForBytesWritten` returns. -/
  | clicked (fields : EmbskyConfig) (now : Int) (flushed : Bool)
  /-- The socket is connected. -/
  | connected
  /-- The socket is about to close, or was closed. -/
  | closed
  /-- The socket has an error. -/
  | errorOccurred
  /-- Bytes arrive. -/
  | readyRead (bytes : List UInt8)
  /-- It is time for a ping. -/
  | timeout
  /-- The user sets a limit. -/
  | thresholdsChanged

/-- One step. -/
def step (fromUtf8 : List UInt8 → QString) (s : State) : Action → Option State
  | .clicked fields now flushed => some (s.onConnectClicked accepts fields now flushed)
  | .connected =>
      if s.socket = .connecting then some (s.transportConnectionEstablished accepts) else none
  | .closed => if s.socket ≠ .absent then some (s.transportConnectionClosed accepts) else none
  | .errorOccurred =>
      if s.socket ≠ .absent then some (s.closeConnection accepts .transportInvalid) else none
  | .readyRead bytes =>
      if s.socket = .connected then s.transportReadyRead accepts fromUtf8 bytes else none
  | .timeout => if s.pingTimer then some (s.sendControlPingRequest accepts) else none
  | .thresholdsChanged => some (s.sendThresholdConfig accepts)

/-- The window and its connection. -/
def machine (fromUtf8 : List UInt8 → QString) (config : EmbskyConfig) (clientId : QString) :
    Machine State Action :=
  ⟨start config clientId, step accepts fromUtf8⟩

end Connection

end IotEdge.Mqtt
