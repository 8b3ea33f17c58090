import IotEdge.Gateway.Blackboard

/-!
# Datagrams

`handle_udp_read` takes one datagram, asks the token bucket, and looks at the
text.  A combined report is pushed as two records, any other report as one.
Each record goes through the ring and, if the ring had room, to the blackboard.

What the text means is left to a parameter, a function from the text to a
`UdpMessage`.  `handleUdpRead` is the list of push sites the call goes through,
and `Store.pushUdp` is what one of them does.
-/

namespace IotEdge

/-- What a datagram is taken for. -/
inductive UdpMessage where
  /-- A temperature and a humidity. -/
  | combined (tempVal humVal : Double)
  /-- One record, in any of the three formats. -/
  | single (sensorId : UInt32) (sensorData : Double)
  /-- Anything else. -/
  | unknown
deriving DecidableEq, Repr

/-- The push sites for a message, in order. -/
def UdpMessage.sites : UdpMessage → List PushSite
  | .combined tempVal humVal => [.combinedTemp tempVal, .combinedHum humVal]
  | .single sensorId sensorData => [.single sensorId sensorData]
  | .unknown => []

/-- `BUFFER_SIZE`. -/
def bufferSize : Nat := 1024

/-- The text in `buffer`.  `recvfrom` stores at most `BUFFER_SIZE - 1` bytes, and
the string functions stop at the first zero. -/
def bufferText (bytes : List UInt8) : List UInt8 :=
  (bytes.take (bufferSize - 1)).takeWhile (· ≠ 0)

/-- `handle_udp_read`: the push sites it goes through for the datagram `bytes`.
There is none when `recvfrom` did not return a byte, and none without a token. -/
def handleUdpRead (parse : List UInt8 → UdpMessage) (bytes : List UInt8) (token : Bool) :
    List PushSite :=
  if bytes = [] then []
  else if token = false then []
  else (parse (bufferText bytes)).sites

/-- The text is the beginning of what was sent. -/
theorem bufferText_isPrefix (bytes : List UInt8) : bufferText bytes <+: bytes :=
  (List.takeWhile_prefix _).trans (List.take_prefix _ _)

/-- The bytes that were sent behind the text. -/
def unread (bytes : List UInt8) : List UInt8 := bytes.drop (bufferText bytes).length

theorem bufferText_append_unread (bytes : List UInt8) :
    bufferText bytes ++ unread bytes = bytes :=
  (List.prefix_iff_eq_append.mp (bufferText_isPrefix bytes))

/-! ## The two stores -/

/-- The ring and the blackboard. -/
structure Store where
  /-- The ring. -/
  queue : DataQueue
  /-- The blackboard. -/
  board : Blackboard
  /-- The records pushed so far, in order. -/
  enqueued : List IPCData

namespace Store

/-- The stores when the event loop starts. -/
def init : Store where
  queue := .init
  board := .zeroed
  enqueued := []

/-- The critical section of a push site. -/
def push (s : Store) (data : IPCData) : Option Store :=
  (s.queue.push data).map fun queue =>
    { s with queue := queue, enqueued := s.enqueued ++ [data] }

/-- A push site of `handle_udp_read`.  Only a record that was pushed is shown on
the blackboard. -/
def pushUdp (s : Store) (site : PushSite) (now : Int64) : Store :=
  match s.push site.record with
  | some s' => { s' with
      board := s'.board.updateSharedSensorData site.record.sensorId site.record.sensorData now }
  | none => s

/-- The value of the record of a sensor that was pushed last. -/
def lastEnqueued (s : Store) (sensorId : UInt32) : Option Double :=
  (s.enqueued.map fun r => (r.sensorId, r.sensorData)).lastValue sensorId

theorem push_eq_some {s s' : Store} {data : IPCData} (h : s.push data = some s') :
    s'.board = s.board ∧ s'.enqueued = s.enqueued ++ [data] := by
  obtain ⟨queue, -, hs'⟩ := Option.map_eq_some_iff.mp h
  subst hs'
  exact ⟨rfl, rfl⟩

theorem push_eq_none_iff {s : Store} {data : IPCData} :
    s.push data = none ↔ s.queue.occupancy = 1023 := by
  rw [push, Option.map_eq_none_iff, DataQueue.push_eq_none_iff]

/-- A push that succeeds found room. -/
theorem occupancy_ne_of_push {s s' : Store} {data : IPCData} (h : s.push data = some s') :
    s.queue.occupancy ≠ 1023 := by
  intro hfull
  rw [push_eq_none_iff.mpr hfull] at h
  cases h

/-- With room, a push site of `handle_udp_read` writes to both stores. -/
theorem pushUdp_of_room {s : Store} (h : s.queue.occupancy ≠ 1023) (site : PushSite)
    (now : Int64) :
    (s.pushUdp site now).queue.contents = s.queue.contents ++ [site.record] ∧
      (s.pushUdp site now).enqueued = s.enqueued ++ [site.record] ∧
      (s.pushUdp site now).board =
        s.board.updateSharedSensorData site.record.sensorId site.record.sensorData now := by
  rw [pushUdp]
  cases hpush : s.push site.record with
  | none => exact absurd (push_eq_none_iff.mp hpush) h
  | some s' =>
      obtain ⟨queue, hqueue, rfl⟩ := Option.map_eq_some_iff.mp hpush
      exact ⟨(DataQueue.push_eq_some hqueue).1, rfl, rfl⟩

/-- Without room it does nothing. -/
theorem pushUdp_of_full {s : Store} (h : s.queue.occupancy = 1023) (site : PushSite)
    (now : Int64) : s.pushUdp site now = s := by
  rw [pushUdp, push_eq_none_iff.mpr h]

/-- A push changes the last value of its own sensor only. -/
theorem lastEnqueued_push {s s' : Store} {data : IPCData} (h : s.push data = some s')
    (sensorId : UInt32) : s'.lastEnqueued sensorId =
      if sensorId = data.sensorId then some data.sensorData else s.lastEnqueued sensorId := by
  rw [lastEnqueued, (push_eq_some h).2, List.map_append, List.map_singleton,
    List.lastValue_concat]
  rfl

end Store

end IotEdge
