import IotEdge.Monitor.SensorCache

/-!
# The alarm page

`AlarmPage::updateSensorData` gets every packet, notes it in a table, and compares both
values with their limits.  For each value over its limit it calls `triggerAlarm`.

A packet has both values whichever sensor reported, so a value over its limit is an alarm
again with every message of the other sensor.  `alarms_per_message` counts the alarms.
-/

namespace IotEdge.Monitor

open CString (ascii)

/-- A line of the table of readings. -/
structure HistoryRow (α : Type) where
  /-- The device. -/
  devId : Int32
  /-- What was measured. -/
  type : String
  /-- The value. -/
  value : α
  /-- When it was measured. -/
  timestamp : Int64

/-- The arguments of `triggerAlarm`. -/
structure Alarm (α : Type) where
  alarmType : String
  limitVal : α
  actualVal : α
deriving DecidableEq

/-- The text of the status indicator. -/
inductive AlarmStatus where
  /-- `● 正常`. -/
  | normal
  /-- `⚠ 报警中`. -/
  | alarming
  /-- `● 未连接`. -/
  | disconnected
deriving DecidableEq, Repr

/-- `AlarmPage`, without the spin boxes, and the calls of `triggerAlarm` so far. -/
structure AlarmPage (α : Type) where
  alarmCounter : Nat
  tempMaxLimit : α
  humiMaxLimit : α
  currentTemp : α
  currentHumi : α
  /-- `m_tableHistory`, the first line first. -/
  tableHistory : List (HistoryRow α)
  /-- `m_tableAlarms`: the number of the alarm, and what it was. -/
  tableAlarms : List (Int × Alarm α)
  lblAlarmStatus : AlarmStatus
  /-- The calls of `triggerAlarm`, in order. -/
  triggered : List (Alarm α)

/-- The type of a temperature alarm. -/
def tempTooHigh : String := "温度过高"

/-- The type of a humidity alarm. -/
def humiTooHigh : String := "湿度过高"

namespace AlarmPage

variable {α : Type}

/-- The page when it is made. -/
def init [OfScientific α] : AlarmPage α :=
  ⟨0, 40.0, 80.0, 0.0, 0.0, [], [], .normal, []⟩

/-- The two lines of a packet, on top of at most 98 older ones. -/
def insertRows (page : AlarmPage α) (packet : DeviceDataPacket α) : AlarmPage α :=
  { page with
    tableHistory := (⟨packet.devId, "湿度", page.currentHumi, packet.timestamp⟩ ::
      ⟨packet.devId, "温度", page.currentTemp, packet.timestamp⟩ :: page.tableHistory).take 100 }

/-- `AlarmPage::triggerAlarm`. -/
def triggerAlarm (page : AlarmPage α) (alarm : Alarm α) : AlarmPage α :=
  { page with
    alarmCounter := page.alarmCounter + 1
    tableAlarms := (((page.alarmCounter : Int) + 1, alarm) :: page.tableAlarms).take 50
    triggered := page.triggered ++ [alarm] }

variable [LT α] [DecidableLT α]

/-- The temperature is compared with its limit. -/
def checkTemp (page : AlarmPage α) : AlarmPage α :=
  if page.tempMaxLimit < page.currentTemp then
    page.triggerAlarm ⟨tempTooHigh, page.tempMaxLimit, page.currentTemp⟩
  else page

/-- The humidity is compared with its limit. -/
def checkHumi (page : AlarmPage α) : AlarmPage α :=
  if page.humiMaxLimit < page.currentHumi then
    page.triggerAlarm ⟨humiTooHigh, page.humiMaxLimit, page.currentHumi⟩
  else page

/-- `AlarmPage::updateSensorData`. -/
def updateSensorData (page : AlarmPage α) (packet : DeviceDataPacket α) : AlarmPage α :=
  let page := { page with currentTemp := packet.temperature, currentHumi := packet.humidity }
  let page := (page.insertRows packet).checkTemp.checkHumi
  if page.tempMaxLimit < page.currentTemp ∨ page.humiMaxLimit < page.currentHumi then
    { page with lblAlarmStatus := .alarming }
  else page

/-! ## The alarms of a packet -/

/-- The temperature alarm of a packet, if there is one. -/
def tempAlarms (tempMaxLimit : α) (packet : DeviceDataPacket α) : List (Alarm α) :=
  if tempMaxLimit < packet.temperature then
    [⟨tempTooHigh, tempMaxLimit, packet.temperature⟩]
  else []

/-- The humidity alarm of a packet, if there is one. -/
def humiAlarms (humiMaxLimit : α) (packet : DeviceDataPacket α) : List (Alarm α) :=
  if humiMaxLimit < packet.humidity then
    [⟨humiTooHigh, humiMaxLimit, packet.humidity⟩]
  else []

/-- The fields that the comparisons read. -/
structure SameValues (page page' : AlarmPage α) : Prop where
  tempMaxLimit : page'.tempMaxLimit = page.tempMaxLimit
  humiMaxLimit : page'.humiMaxLimit = page.humiMaxLimit
  currentTemp : page'.currentTemp = page.currentTemp
  currentHumi : page'.currentHumi = page.currentHumi

theorem sameValues_checkTemp (page : AlarmPage α) : SameValues page page.checkTemp := by
  rw [checkTemp]
  split <;> exact ⟨rfl, rfl, rfl, rfl⟩

theorem sameValues_checkHumi (page : AlarmPage α) : SameValues page page.checkHumi := by
  rw [checkHumi]
  split <;> exact ⟨rfl, rfl, rfl, rfl⟩

theorem triggered_checkTemp (page : AlarmPage α) : page.checkTemp.triggered =
    page.triggered ++ if page.tempMaxLimit < page.currentTemp then
      [⟨tempTooHigh, page.tempMaxLimit, page.currentTemp⟩] else [] := by
  rw [checkTemp]
  split
  next => rfl
  next => rw [List.append_nil]

theorem triggered_checkHumi (page : AlarmPage α) : page.checkHumi.triggered =
    page.triggered ++ if page.humiMaxLimit < page.currentHumi then
      [⟨humiTooHigh, page.humiMaxLimit, page.currentHumi⟩] else [] := by
  rw [checkHumi]
  split
  next => rfl
  next => rw [List.append_nil]

/-- The page after both comparisons. -/
def checked (page : AlarmPage α) (packet : DeviceDataPacket α) : AlarmPage α :=
  ({ page with currentTemp := packet.temperature, currentHumi := packet.humidity }.insertRows
    packet).checkTemp.checkHumi

/-- The status indicator is all that changes behind the comparisons. -/
theorem updateSensorData_cases (page : AlarmPage α) (packet : DeviceDataPacket α) :
    page.updateSensorData packet = page.checked packet ∨
      page.updateSensorData packet = { page.checked packet with lblAlarmStatus := .alarming } := by
  rw [updateSensorData, ← checked]
  dsimp only
  split
  next => exact .inr rfl
  next => exact .inl rfl

/-- The limit of a sensor. -/
def limit (page : AlarmPage α) (isTemperature : Bool) : α :=
  if isTemperature then page.tempMaxLimit else page.humiMaxLimit

theorem limit_updateSensorData (page : AlarmPage α) (packet : DeviceDataPacket α)
    (isTemperature : Bool) :
    (page.updateSensorData packet).limit isTemperature = page.limit isTemperature := by
  have htemp : (page.checked packet).tempMaxLimit = page.tempMaxLimit :=
    (sameValues_checkHumi _).tempMaxLimit.trans (sameValues_checkTemp _).tempMaxLimit
  have hhumi : (page.checked packet).humiMaxLimit = page.humiMaxLimit :=
    (sameValues_checkHumi _).humiMaxLimit.trans (sameValues_checkTemp _).humiMaxLimit
  cases isTemperature with
  | true => rcases page.updateSensorData_cases packet with h | h <;> rw [h] <;> exact htemp
  | false => rcases page.updateSensorData_cases packet with h | h <;> rw [h] <;> exact hhumi

/-- A packet is an alarm for each value over its limit. -/
theorem triggered_updateSensorData (page : AlarmPage α) (packet : DeviceDataPacket α) :
    (page.updateSensorData packet).triggered = page.triggered ++
      tempAlarms page.tempMaxLimit packet ++ humiAlarms page.humiMaxLimit packet := by
  have hchecked : (page.checked packet).triggered = page.triggered ++
      tempAlarms page.tempMaxLimit packet ++ humiAlarms page.humiMaxLimit packet := by
    have hsame := sameValues_checkTemp
      ({ page with currentTemp := packet.temperature, currentHumi := packet.humidity }.insertRows
        packet)
    rw [checked, triggered_checkHumi, triggered_checkTemp, hsame.humiMaxLimit, hsame.currentHumi]
    rfl
  rcases page.updateSensorData_cases packet with h | h <;> rw [h] <;> exact hchecked

/-! ## Counting alarms -/

/-- The type of the alarms of a sensor. -/
def alarmType (isTemperature : Bool) : String := if isTemperature then tempTooHigh else humiTooHigh

/-- How many alarms of a sensor were triggered. -/
def count (page : AlarmPage α) (isTemperature : Bool) : Nat :=
  page.triggered.countP fun alarm => alarm.alarmType == alarmType isTemperature

theorem countP_tempAlarms (tempMaxLimit : α) (packet : DeviceDataPacket α) (isTemperature : Bool) :
    (tempAlarms tempMaxLimit packet).countP (·.alarmType == alarmType isTemperature) =
      if isTemperature ∧ tempMaxLimit < packet.temperature then 1 else 0 := by
  rw [tempAlarms]
  cases isTemperature <;> split <;> simp_all [alarmType, tempTooHigh, humiTooHigh]

theorem countP_humiAlarms (humiMaxLimit : α) (packet : DeviceDataPacket α) (isTemperature : Bool) :
    (humiAlarms humiMaxLimit packet).countP (·.alarmType == alarmType isTemperature) =
      if isTemperature = false ∧ humiMaxLimit < packet.humidity then 1 else 0 := by
  rw [humiAlarms]
  cases isTemperature <;> split <;> simp_all [alarmType, tempTooHigh, humiTooHigh]

/-- A packet is an alarm of a sensor just when the value is over the limit. -/
theorem count_updateSensorData (page : AlarmPage α) (packet : DeviceDataPacket α)
    (isTemperature : Bool) : (page.updateSensorData packet).count isTemperature =
      page.count isTemperature +
        if page.limit isTemperature < packet.reading isTemperature then 1 else 0 := by
  rw [count, triggered_updateSensorData, List.countP_append, List.countP_append,
    countP_tempAlarms, countP_humiAlarms, ← count]
  cases isTemperature with
  | true => simp [limit, DeviceDataPacket.reading]
  | false => simp [limit, DeviceDataPacket.reading]

/-- The page after some packets. -/
def handle (page : AlarmPage α) (packets : List (DeviceDataPacket α)) : AlarmPage α :=
  packets.foldl updateSensorData page

/-- The alarms of a sensor are the packets whose value is over the limit. -/
theorem count_handle (page : AlarmPage α) (packets : List (DeviceDataPacket α))
    (isTemperature : Bool) : (page.handle packets).count isTemperature =
      page.count isTemperature + packets.countP fun packet =>
        page.limit isTemperature < packet.reading isTemperature := by
  induction packets generalizing page with
  | nil => rfl
  | cons packet packets ih =>
      rw [handle, List.foldl_cons, ← handle, ih, count_updateSensorData,
        limit_updateSensorData, List.countP_cons, Nat.add_right_comm, Nat.add_assoc]
      simp

end AlarmPage

namespace Qt

variable {qt : Qt}

/-- The values of a sensor in the packets are its values after each message. -/
theorem map_reading_packets {ms : List Message} (h : ∀ m ∈ ms, ∃ x, qt.number m = some x)
    (isTemperature : Bool) : (qt.run ms).packets.map (·.reading isTemperature) =
      (List.range ms.length).map fun k => qt.value isTemperature (ms.take (k + 1)) := by
  induction ms using List.reverseRecOn with
  | nil => rfl
  | append_singleton ms m ih =>
      have hms : ∀ n ∈ ms, ∃ x, qt.number n = some x := fun n hn => h n (List.mem_append_left _ hn)
      have hnumbered : ∀ n ∈ ms, qt.Numbered n := by
        intro n hn hnone
        obtain ⟨x, hx⟩ := hms n hn
        rw [hx] at hnone
        cases hnone
      obtain ⟨x, hx⟩ := h m (List.mem_append_right _ (List.mem_singleton_self m))
      have hbefore : (List.range ms.length).map
          (fun k => qt.value isTemperature ((ms ++ [m]).take (k + 1))) =
            (List.range ms.length).map fun k => qt.value isTemperature (ms.take (k + 1)) := by
        refine List.map_congr_left fun k hk => ?_
        rw [List.take_append_of_le_length (List.mem_range.mp hk)]
      rw [packets_concat hnumbered hx, List.map_append, ih hms, List.length_append,
        List.length_singleton, List.range_succ, List.map_append, hbefore, List.map_singleton,
        List.map_singleton, List.take_of_length_le (by simp)]
      cases isTemperature <;> rfl

end Qt

/-- After any messages that carry numbers, the alarms of a sensor are as many as the
messages, of either topic, after which the last number of the sensor is over the limit.
A sensor that has not reported counts as 0.0. -/
theorem alarms_per_message (qt : Qt) (page : AlarmPage Float) {ms : List Message}
    (h : ∀ m ∈ ms, ∃ x, qt.number m = some x) (isTemperature : Bool) :
    (page.handle (qt.run ms).packets).count isTemperature = page.count isTemperature +
      (List.range ms.length).countP fun k =>
        page.limit isTemperature < qt.value isTemperature (ms.take (k + 1)) := by
  have hcount : ∀ packets : List (DeviceDataPacket Float),
      (packets.countP fun packet => page.limit isTemperature < packet.reading isTemperature) =
        (packets.map (·.reading isTemperature)).countP (page.limit isTemperature < ·) :=
    fun packets => by rw [List.countP_map]; rfl
  rw [AlarmPage.count_handle, hcount, Qt.map_reading_packets h, List.countP_map]
  rfl

/-- A temperature of 50 degrees and a humidity. -/
def hotThenHumid : List Message := [⟨ascii "50", true, 100⟩, ⟨ascii "30", false, 101⟩]

/-- The temperature is two alarms. -/
theorem alarms_per_message_hot :
    ((AlarmPage.init : AlarmPage Float).handle (plainNumbers.run hotThenHumid).packets).count
      true = 2 := by
  have hnumbers : ∀ m ∈ hotThenHumid, ∃ x, plainNumbers.number m = some x := by
    intro m hm
    rw [hotThenHumid, List.mem_cons, List.mem_singleton] at hm
    rcases hm with rfl | rfl
    · exact ⟨50.0, rfl⟩
    · exact ⟨30.0, rfl⟩
  exact (alarms_per_message plainNumbers .init hnumbers true).trans (by decide)

/-- The alarms of a sensor are as many as its messages with a number over the limit. -/
def OneEach (qt : Qt) (page : AlarmPage Float) (ms : List Message) (isTemperature : Bool) : Prop :=
  (page.handle (qt.run ms).packets).count isTemperature = page.count isTemperature +
    (ms.filter fun m => m.isTemperature == isTemperature).countP fun m =>
      (qt.number m).any (page.limit isTemperature < ·)

/-- A hot reading is an alarm again when the humidity is reported. -/
theorem alarm_repeated : ¬ OneEach plainNumbers .init hotThenHumid true := by
  have htwo : ((AlarmPage.init : AlarmPage Float).handle
      (plainNumbers.run hotThenHumid).packets).count true = 2 :=
    (AlarmPage.count_handle _ _ true).trans (by decide)
  rw [OneEach, htwo]
  decide

end IotEdge.Monitor
