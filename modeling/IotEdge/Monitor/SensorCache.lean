import Mathlib.Data.List.Basic
import IotEdge.Lib.CString

/-!
# The readings of the monitor

Temperature and humidity come in messages of their own.  `mainWidget::onSensorData` keeps
the last value of each, and after each message passes a packet with both values on to the
pages.

A message is a JSON object with a number in `data` or `value`, or a plain number.  Qt reads
it: `Qt` is what the function uses of the library.  `sensor_packets` says what is passed
on.  As long as a sensor has not reported, its value is 0.0.
-/

namespace IotEdge.Monitor

open CString (ascii)

/-- `DeviceDataPacket`, with numbers of type `α`. -/
structure DeviceDataPacket (α : Type) where
  devId : Int32
  temperature : α
  humidity : α
  timestamp : Int64
deriving DecidableEq

/-- The value of one sensor. -/
def DeviceDataPacket.reading {α : Type} (packet : DeviceDataPacket α) (isTemperature : Bool) : α :=
  if isTemperature then packet.temperature else packet.humidity

/-- A member of a JSON object. -/
inductive JsonValue where
  /-- There is no such member. -/
  | undefined
  /-- A number. -/
  | double (x : Float)
  /-- Anything else. -/
  | other

namespace JsonValue

/-- `QJsonValue::toDouble`. -/
def toDouble (defaultValue : Float) : JsonValue → Float
  | double x => x
  | _ => defaultValue

/-- The number, if it is one. -/
def number : JsonValue → Option Float
  | double x => some x
  | _ => none

end JsonValue

/-- What is used of Qt. -/
structure Qt where
  /-- `QJsonDocument::fromJson`: the members of the object, if the text is one. -/
  fromJson : List UInt8 → Option (String → JsonValue)
  /-- `QByteArray::toDouble`: the number, if the text is one. -/
  toDouble : List UInt8 → Option Float

/-- A message of one of the two topics. -/
structure Message where
  payload : List UInt8
  isTemperature : Bool
  /-- The clock when the message comes. -/
  now : Int64

/-- The last values, and the packets that were passed to `processReceivedData`. -/
structure Cache where
  lastTemperature : Float
  lastHumidity : Float
  /-- The arguments of `processReceivedData`, in order. -/
  packets : List (DeviceDataPacket Float)

namespace Cache

/-- The constructor of `mainWidget`. -/
def init : Cache := ⟨0.0, 0.0, []⟩

/-- The new value. -/
def store (s : Cache) (isTemperature : Bool) (value : Float) : Cache :=
  if isTemperature then { s with lastTemperature := value }
  else { s with lastHumidity := value }

/-- A packet with both values. -/
def submit (s : Cache) (ts : Int64) : Cache :=
  { s with packets := s.packets ++ [⟨1, s.lastTemperature, s.lastHumidity, ts⟩] }

end Cache

namespace Qt

variable (qt : Qt)

/-- The value and the time in a message, as `onSensorData` reads them.  `none` when it
returns early. -/
def reading (m : Message) : Option (Float × Int64) :=
  match qt.fromJson m.payload with
  | some obj =>
      let value := (obj "data").toDouble ((obj "value").toDouble 0.0)
      match obj "timestamp" with
      | .undefined => some (value, m.now)
      | ts => some (value, (ts.toDouble 0.0).toInt64)
  | none => (qt.toDouble m.payload).map fun value => (value, m.now)

/-- `mainWidget::onSensorData`. -/
def onSensorData (s : Cache) (m : Message) : Cache :=
  match qt.reading m with
  | some (value, ts) => (s.store m.isTemperature value).submit ts
  | none => s

/-- The state after some messages. -/
def run (ms : List Message) : Cache := ms.foldl qt.onSensorData .init

/-! ## The numbers in the messages -/

/-- The number that a message carries. -/
def number (m : Message) : Option Float :=
  match qt.fromJson m.payload with
  | some obj => (obj "data").number <|> (obj "value").number
  | none => qt.toDouble m.payload

/-- The number in the last message of a topic that carries one. -/
def latest (isTemperature : Bool) (ms : List Message) : Option Float :=
  ((ms.filter fun m => m.isTemperature == isTemperature).filterMap qt.number).getLast?

/-- If the message is a JSON object, it carries a number. -/
def Numbered (m : Message) : Prop := qt.number m = none → qt.fromJson m.payload = none

/-- The time of a message. -/
def time (m : Message) : Int64 := ((qt.reading m).map Prod.snd).getD m.now

variable {qt}

/-- The value of an object that carries a number. -/
theorem toDouble_of_number {obj : String → JsonValue} {x : Float}
    (h : ((obj "data").number <|> (obj "value").number) = some x) :
    (obj "data").toDouble ((obj "value").toDouble 0.0) = x := by
  cases hdata : obj "data" with
  | double y =>
      rw [hdata] at h
      exact Option.some.inj h
  | undefined | other =>
      rw [hdata] at h
      cases hval : obj "value" with
      | double y =>
          rw [hval] at h
          exact Option.some.inj h
      | undefined | other =>
          rw [hval] at h
          cases h

theorem reading_of_number {m : Message} {x : Float} (h : qt.number m = some x) :
    qt.reading m = some (x, qt.time m) := by
  have hvalue : ∃ ts, qt.reading m = some (x, ts) := by
    rw [number] at h
    rw [reading]
    cases hobj : qt.fromJson m.payload with
    | none =>
        rw [hobj] at h
        exact ⟨m.now, by simp only [h]; rfl⟩
    | some obj =>
        rw [hobj] at h
        dsimp only at h ⊢
        rw [toDouble_of_number h]
        split <;> exact ⟨_, rfl⟩
  obtain ⟨ts, hts⟩ := hvalue
  rw [time, hts]
  rfl

theorem reading_of_not_number {m : Message} (h : qt.number m = none) (hm : qt.Numbered m) :
    qt.reading m = none := by
  have hobj := hm h
  rw [number, hobj] at h
  simp only [reading, hobj, h]
  rfl

/-- One more message of the topic. -/
theorem latest_concat_same (ms : List Message) (m : Message) :
    qt.latest m.isTemperature (ms ++ [m]) =
      (qt.number m <|> qt.latest m.isTemperature ms) := by
  have hfilter : [m].filter (fun n => n.isTemperature == m.isTemperature) = [m] :=
    List.filter_cons_of_pos (beq_self_eq_true _)
  rw [latest, List.filter_append, hfilter, List.filterMap_append]
  cases hnumber : qt.number m with
  | none =>
      rw [List.filterMap_cons_none hnumber, List.filterMap_nil, List.append_nil]
      rfl
  | some x =>
      rw [List.filterMap_cons_some hnumber, List.filterMap_nil, List.getLast?_concat]
      rfl

/-- One more message of the other topic. -/
theorem latest_concat_other {isTemperature : Bool} (ms : List Message) {m : Message}
    (hm : m.isTemperature ≠ isTemperature) :
    qt.latest isTemperature (ms ++ [m]) = qt.latest isTemperature ms := by
  have hfilter : [m].filter (fun n => n.isTemperature == isTemperature) = [] :=
    List.filter_cons_of_neg (by simpa using hm)
  rw [latest, List.filter_append, hfilter, List.append_nil]
  rfl

/-! ## What is passed on -/

/-- The value of a sensor after some messages: 0.0 until it has reported. -/
def value (qt : Qt) (isTemperature : Bool) (ms : List Message) : Float :=
  (qt.latest isTemperature ms).getD 0.0

theorem run_concat (ms : List Message) (m : Message) :
    qt.run (ms ++ [m]) = qt.onSensorData (qt.run ms) m := by
  rw [run, List.foldl_append]
  rfl

theorem onSensorData_of_number {s : Cache} {m : Message} {x : Float} (h : qt.number m = some x) :
    qt.onSensorData s m = (s.store m.isTemperature x).submit (qt.time m) := by
  rw [onSensorData, reading_of_number h]

theorem onSensorData_of_not_number {s : Cache} {m : Message} (h : qt.number m = none)
    (hm : qt.Numbered m) : qt.onSensorData s m = s := by
  rw [onSensorData, reading_of_not_number h hm]

/-- The value of a sensor after one more message. -/
theorem value_concat {ms : List Message} {m : Message} {x : Float} (h : qt.number m = some x)
    (isTemperature : Bool) : qt.value isTemperature (ms ++ [m]) =
      if m.isTemperature = isTemperature then x else qt.value isTemperature ms := by
  rw [value]
  split
  next hm =>
    rw [← hm, latest_concat_same, h]
    rfl
  next hm =>
    rw [latest_concat_other ms hm]
    rfl

/-- The cache holds the values of the sensors. -/
structure Holds (qt : Qt) (ms : List Message) (s : Cache) : Prop where
  lastTemperature : s.lastTemperature = qt.value true ms
  lastHumidity : s.lastHumidity = qt.value false ms

theorem holds_store {ms : List Message} {s : Cache} (hs : qt.Holds ms s) {m : Message}
    {x : Float} (h : qt.number m = some x) :
    qt.Holds (ms ++ [m]) (s.store m.isTemperature x) := by
  constructor
  · rw [value_concat h, Cache.store]
    cases hm : m.isTemperature with
    | true => rfl
    | false => exact hs.lastTemperature
  · rw [value_concat h, Cache.store]
    cases hm : m.isTemperature with
    | true => exact hs.lastHumidity
    | false => rfl

theorem holds_run {ms : List Message} (h : ∀ m ∈ ms, qt.Numbered m) :
    qt.Holds ms (qt.run ms) := by
  induction ms using List.reverseRecOn with
  | nil => exact ⟨rfl, rfl⟩
  | append_singleton ms m ih =>
      have hms := ih fun n hn => h n (List.mem_append_left _ hn)
      rw [run_concat]
      cases hnumber : qt.number m with
      | some x =>
          rw [onSensorData_of_number hnumber]
          have hstore := holds_store hms hnumber
          exact ⟨hstore.lastTemperature, hstore.lastHumidity⟩
      | none =>
          have hm : qt.Numbered m := h m (List.mem_append_right _ (List.mem_singleton_self m))
          rw [onSensorData_of_not_number hnumber hm]
          have hlatest : ∀ isTemperature,
              qt.latest isTemperature (ms ++ [m]) = qt.latest isTemperature ms := by
            intro isTemperature
            rcases eq_or_ne m.isTemperature isTemperature with rfl | hne
            · rw [latest_concat_same, hnumber]
              rfl
            · exact latest_concat_other ms hne
          exact ⟨by rw [hms.lastTemperature, value, value, hlatest],
            by rw [hms.lastHumidity, value, value, hlatest]⟩

/-- The packet that is passed on for a message with a number. -/
theorem packets_concat {ms : List Message} (hms : ∀ m ∈ ms, qt.Numbered m) {m : Message}
    {x : Float} (h : qt.number m = some x) : (qt.run (ms ++ [m])).packets =
      (qt.run ms).packets ++
        [⟨1, qt.value true (ms ++ [m]), qt.value false (ms ++ [m]), qt.time m⟩] := by
  have hstore := holds_store (holds_run hms) h
  rw [run_concat, onSensorData_of_number h, Cache.submit, hstore.lastTemperature,
    hstore.lastHumidity, Cache.store]
  split <;> rfl

/-- After any messages of which each JSON object carries a number, a message with a number
makes one packet, with the last numbers of both sensors and 0.0 for a sensor that has not
reported.  Another message changes nothing. -/
theorem sensor_packets (qt : Qt) {ms : List Message} {m : Message}
    (h : ∀ n ∈ ms ++ [m], qt.Numbered n) :
    (qt.number m = none → qt.run (ms ++ [m]) = qt.run ms) ∧
      ∀ x, qt.number m = some x → (qt.run (ms ++ [m])).packets = (qt.run ms).packets ++
        [⟨1, qt.value true (ms ++ [m]), qt.value false (ms ++ [m]), qt.time m⟩] := by
  constructor
  · intro hnumber
    rw [run_concat, onSensorData_of_not_number hnumber (h m (by simp))]
  · intro x hnumber
    exact packets_concat (fun n hn => h n (List.mem_append_left _ hn)) hnumber

end Qt

/-- Texts that Qt reads as the numbers 25, 30 and 50. -/
def plainNumbers : Qt where
  fromJson := fun _ => none
  toDouble := fun payload =>
    if payload = ascii "25" then some 25.0
    else if payload = ascii "30" then some 30.0
    else if payload = ascii "50" then some 50.0
    else none

/-- A humidity after a temperature. -/
theorem sensor_packets_second : (plainNumbers.run
    ([⟨ascii "25", true, 100⟩] ++ [⟨ascii "30", false, 101⟩])).packets =
      (plainNumbers.run [⟨ascii "25", true, 100⟩]).packets ++ [⟨1, 25.0, 30.0, 101⟩] :=
  (Qt.sensor_packets plainNumbers fun _ _ _ => rfl).2 30.0 rfl

/-- A message without a number changes nothing, and what is passed on has been reported by
both sensors. -/
def Reported (qt : Qt) (ms : List Message) (m : Message) : Prop :=
  (qt.number m = none → qt.run (ms ++ [m]) = qt.run ms) ∧
    ((qt.run (ms ++ [m])).packets ≠ (qt.run ms).packets →
      ∃ t h, qt.latest true (ms ++ [m]) = some t ∧ qt.latest false (ms ++ [m]) = some h ∧
        (qt.run (ms ++ [m])).packets = (qt.run ms).packets ++ [⟨1, t, h, qt.time m⟩])

/-- The first packet has a humidity that no sensor reported. -/
theorem first_packet_not_reported : ¬ Reported plainNumbers [] ⟨ascii "25", true, 100⟩ := by
  intro h
  have hnew : (plainNumbers.run ([] ++ [⟨ascii "25", true, 100⟩])).packets =
      (plainNumbers.run []).packets ++ [⟨1, _, _, _⟩] :=
    Qt.packets_concat (x := 25.0) (fun _ h => by cases h) rfl
  obtain ⟨t, x, -, hlatest, -⟩ := h.2 (by rw [hnew]; simp)
  cases hlatest

end IotEdge.Monitor
