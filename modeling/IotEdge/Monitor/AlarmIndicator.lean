import IotEdge.Monitor.AlarmPage

/-!
# The status indicator of the alarm page

Packets, notifications of the server, the connection and the button that clears the tables
all write the label of `AlarmPage`, and none of them sees why it has the text it has.  A
packet within the limits does not write it, and a notification writes that there is an
alarm whatever its status is.

So the label is right about a packet within the limits only if the last that was written is
that all is well (`indicator_iff`).
-/

namespace IotEdge.Monitor

/-- What the page reads of `AlarmNotificationRecord`, and the status. -/
structure AlarmNotification (α : Type) where
  alarmId : Int32
  alarmType : String
  limitValue : α
  actualValue : α
  /-- 1 for an alarm, 0 when it is over. -/
  status : Int32

/-- What happens to the page. -/
inductive AlarmPageEvent (α : Type) where
  /-- A packet. -/
  | packet (packet : DeviceDataPacket α)
  /-- The connection is made or lost. -/
  | connection (connected : Bool)
  /-- The button that clears the tables. -/
  | clear
  /-- New limits. -/
  | thresholds (tempMax humiMax : α)
  /-- A notification of the server. -/
  | notification (notif : AlarmNotification α)

namespace AlarmPage

variable {α : Type}

/-- `AlarmPage::updateConnectionStatus`. -/
def updateConnectionStatus (page : AlarmPage α) (connected : Bool) : AlarmPage α :=
  if connected then page else { page with lblAlarmStatus := .disconnected }

/-- What the button `清空历史` calls. -/
def clearHistory (page : AlarmPage α) : AlarmPage α :=
  { page with tableHistory := [], tableAlarms := [], alarmCounter := 0, lblAlarmStatus := .normal }

/-- `AlarmPage::updateThresholds`, without the spin boxes. -/
def updateThresholds (page : AlarmPage α) (tempMax humiMax : α) : AlarmPage α :=
  { page with tempMaxLimit := tempMax, humiMaxLimit := humiMax }

/-- `AlarmPage::onAlarmNotificationReceived`. -/
def onAlarmNotificationReceived (page : AlarmPage α) (notif : AlarmNotification α) : AlarmPage α :=
  { page with
    alarmCounter := page.alarmCounter + 1
    tableAlarms := ((notif.alarmId.toInt,
      ⟨notif.alarmType, notif.limitValue, notif.actualValue⟩) :: page.tableAlarms).take 50
    lblAlarmStatus := .alarming }

variable [LT α] [DecidableLT α]

/-- One event. -/
def handleEvent (page : AlarmPage α) : AlarmPageEvent α → AlarmPage α
  | .packet packet => page.updateSensorData packet
  | .connection connected => page.updateConnectionStatus connected
  | .clear => page.clearHistory
  | .thresholds tempMax humiMax => page.updateThresholds tempMax humiMax
  | .notification notif => page.onAlarmNotificationReceived notif

/-- The page after some events. -/
def run [OfScientific α] (events : List (AlarmPageEvent α)) : AlarmPage α :=
  events.foldl handleEvent .init

/-- A value of the packet is over its limit. -/
abbrev Exceeds (page : AlarmPage α) (packet : DeviceDataPacket α) : Prop :=
  page.tempMaxLimit < packet.temperature ∨ page.humiMaxLimit < packet.humidity

/-- What an event writes on the label. -/
def written (page : AlarmPage α) : AlarmPageEvent α → Option AlarmStatus
  | .packet packet => if page.Exceeds packet then some .alarming else none
  | .connection connected => if connected then none else some .disconnected
  | .clear => some .normal
  | .thresholds _ _ => none
  | .notification _ => some .alarming

/-! ## The label -/

@[simp] theorem lblAlarmStatus_checkTemp (page : AlarmPage α) :
    page.checkTemp.lblAlarmStatus = page.lblAlarmStatus := by
  rw [checkTemp]
  split <;> rfl

@[simp] theorem lblAlarmStatus_checkHumi (page : AlarmPage α) :
    page.checkHumi.lblAlarmStatus = page.lblAlarmStatus := by
  rw [checkHumi]
  split <;> rfl

/-- What is compared behind the comparisons are the values of the packet. -/
theorem checked_exceeds_iff (page : AlarmPage α) (packet : DeviceDataPacket α) :
    ((page.checked packet).tempMaxLimit < (page.checked packet).currentTemp ∨
      (page.checked packet).humiMaxLimit < (page.checked packet).currentHumi) ↔
        page.Exceeds packet := by
  have hsame := sameValues_checkTemp
    ({ page with currentTemp := packet.temperature, currentHumi := packet.humidity }.insertRows
      packet)
  have hsame' := sameValues_checkHumi
    ({ page with currentTemp := packet.temperature, currentHumi := packet.humidity }.insertRows
      packet).checkTemp
  rw [checked, hsame'.tempMaxLimit, hsame'.humiMaxLimit, hsame'.currentTemp, hsame'.currentHumi,
    hsame.tempMaxLimit, hsame.humiMaxLimit, hsame.currentTemp, hsame.currentHumi]
  rfl

/-- A packet over a limit writes the label, and no other packet does. -/
theorem lblAlarmStatus_updateSensorData (page : AlarmPage α) (packet : DeviceDataPacket α) :
    (page.updateSensorData packet).lblAlarmStatus =
      if page.Exceeds packet then .alarming else page.lblAlarmStatus := by
  rw [updateSensorData, ← checked]
  by_cases h : page.Exceeds packet
  · rw [if_pos ((page.checked_exceeds_iff packet).mpr h), if_pos h]
  · rw [if_neg fun hchecked => h ((page.checked_exceeds_iff packet).mp hchecked), if_neg h,
      checked, lblAlarmStatus_checkHumi, lblAlarmStatus_checkTemp]
    rfl

/-- The label after an event. -/
theorem lblAlarmStatus_handleEvent (page : AlarmPage α) (event : AlarmPageEvent α) :
    (page.handleEvent event).lblAlarmStatus = (page.written event).getD page.lblAlarmStatus := by
  cases event with
  | packet packet =>
      rw [handleEvent, lblAlarmStatus_updateSensorData, written]
      split <;> rfl
  | connection connected => cases connected <;> rfl
  | clear => rfl
  | thresholds tempMax humiMax => rfl
  | notification notif => rfl

/-! ## Runs -/

section Runs

variable [OfScientific α]

theorem run_concat (events : List (AlarmPageEvent α)) (event : AlarmPageEvent α) :
    run (events ++ [event]) = (run events).handleEvent event := by
  rw [run, List.foldl_concat, ← run]

/-- No event behind `earlier` writes the label. -/
def Silent (earlier later : List (AlarmPageEvent α)) : Prop :=
  ∀ before event after, later = before ++ event :: after →
    (run (earlier ++ before)).written event = none

/-- The last that the events write on the label, or the text it has at the start. -/
def LastWritten (events : List (AlarmPageEvent α)) (status : AlarmStatus) : Prop :=
  ∃ earlier later, events = earlier ++ later ∧ Silent earlier later ∧
    ((earlier = [] ∧ status = .normal) ∨
      ∃ before event, earlier = before ++ [event] ∧ (run before).written event = some status)

theorem silent_nil (earlier : List (AlarmPageEvent α)) : Silent earlier [] := by
  intro before event after h
  simp at h

theorem Silent.concat {earlier later : List (AlarmPageEvent α)} (h : Silent earlier later)
    {event : AlarmPageEvent α} (hevent : (run (earlier ++ later)).written event = none) :
    Silent earlier (later ++ [event]) := by
  intro before e after heq
  rcases List.eq_nil_or_concat after with rfl | ⟨after, a, rfl⟩
  · obtain ⟨rfl, he⟩ := List.append_inj' heq rfl
    cases he
    exact hevent
  · rw [List.concat_eq_append, ← List.cons_append, ← List.append_assoc] at heq
    exact h before e after (List.append_inj' heq rfl).1

/-- The label has the text that was written last. -/
theorem lastWritten_run (events : List (AlarmPageEvent α)) :
    LastWritten events (run events).lblAlarmStatus := by
  induction events using List.reverseRecOn with
  | nil => exact ⟨[], [], rfl, silent_nil _, .inl ⟨rfl, rfl⟩⟩
  | append_singleton events event ih =>
      rw [run_concat, lblAlarmStatus_handleEvent]
      cases hwritten : (run events).written event with
      | some status =>
          exact ⟨events ++ [event], [], by simp, silent_nil _, .inr ⟨events, event, rfl, hwritten⟩⟩
      | none =>
          obtain ⟨earlier, later, rfl, hsilent, hlast⟩ := ih
          exact ⟨earlier, later ++ [event], by simp, hsilent.concat hwritten, hlast⟩

/-- Events that do not write leave the label as it is. -/
theorem Silent.lblAlarmStatus_eq {earlier later : List (AlarmPageEvent α)}
    (h : Silent earlier later) :
    (run (earlier ++ later)).lblAlarmStatus = (run earlier).lblAlarmStatus := by
  induction later using List.reverseRecOn with
  | nil => rw [List.append_nil]
  | append_singleton later event ih =>
      have hevent := h later event [] rfl
      have hlater : Silent earlier later := fun before e after heq =>
        h before e (after ++ [event]) (by rw [heq]; simp)
      rw [← List.append_assoc, run_concat, lblAlarmStatus_handleEvent, hevent, Option.getD_none,
        ih hlater]

/-- The text of the label and the events so far. -/
theorem lblAlarmStatus_run_iff {events : List (AlarmPageEvent α)} {status : AlarmStatus} :
    (run events).lblAlarmStatus = status ↔ LastWritten events status := by
  constructor
  · rintro rfl
    exact lastWritten_run events
  · rintro ⟨earlier, later, rfl, hsilent, hlast⟩
    rw [hsilent.lblAlarmStatus_eq]
    rcases hlast with ⟨rfl, rfl⟩ | ⟨before, event, rfl, hwritten⟩
    · rfl
    · rw [run_concat, lblAlarmStatus_handleEvent, hwritten, Option.getD_some]

/-! ## What the label says -/

/-- The connection after some events. -/
def connectedAfter (events : List (AlarmPageEvent α)) : Bool :=
  events.foldl
    (fun connected event =>
      match event with
      | .connection now => now
      | _ => connected)
    false

/-- After each packet that is handled while connected, the label says whether the packet is
over a limit. -/
def TellsPackets (events : List (AlarmPageEvent α)) : Prop :=
  ∀ before packet after, events = before ++ .packet packet :: after → connectedAfter before →
    (run (before ++ [.packet packet])).lblAlarmStatus =
      if (run before).Exceeds packet then .alarming else .normal

/-- No notification with status 0 turns the label to an alarm. -/
def TellsRecoveries (events : List (AlarmPageEvent α)) : Prop :=
  ∀ before notif after, events = before ++ .notification notif :: after → notif.status = 0 →
    (run before).lblAlarmStatus ≠ .alarming →
      (run (before ++ [.notification notif])).lblAlarmStatus ≠ .alarming

/-- The label tells the state exactly when each packet that is handled while connected and
is within the limits comes when the last that was written is that all is well, and each
notification with status 0 when it is that there is an alarm. -/
theorem indicator_iff (events : List (AlarmPageEvent α)) :
    (TellsPackets events ↔
      ∀ before packet after, events = before ++ .packet packet :: after →
        connectedAfter before → ¬ (run before).Exceeds packet → LastWritten before .normal) ∧
    (TellsRecoveries events ↔
      ∀ before notif after, events = before ++ .notification notif :: after →
        notif.status = 0 → LastWritten before .alarming) := by
  constructor
  · refine forall_congr' fun before => forall_congr' fun packet => forall_congr' fun after =>
      forall_congr' fun _ => forall_congr' fun _ => ?_
    rw [run_concat, handleEvent, lblAlarmStatus_updateSensorData, ← lblAlarmStatus_run_iff]
    by_cases hexceeds : (run before).Exceeds packet
    · rw [if_pos hexceeds, if_pos hexceeds]
      exact iff_of_true rfl fun hwithin => absurd hexceeds hwithin
    · rw [if_neg hexceeds, if_neg hexceeds]
      exact ⟨fun h _ => h, fun h => h hexceeds⟩
  · refine forall_congr' fun before => forall_congr' fun notif => forall_congr' fun after =>
      forall_congr' fun _ => forall_congr' fun _ => ?_
    rw [run_concat, ← lblAlarmStatus_run_iff]
    exact ⟨fun h => by_contra fun hne => h hne rfl, fun h hne => absurd h hne⟩

end Runs

/-- A packet of 50 degrees and one of 20 degrees, while connected. -/
def coolsDown : List (AlarmPageEvent Float) :=
  [.connection true, .packet ⟨1, 50.0, 30.0, 100⟩, .packet ⟨1, 20.0, 30.0, 101⟩]

/-- The label still says that there is an alarm. -/
theorem alarm_never_over :
    ¬ ∀ events : List (AlarmPageEvent Float),
      ((∀ event ∈ events, ∀ notif, event ≠ .notification notif) → TellsPackets events) ∧
        TellsRecoveries events := by
  intro h
  have hpackets := (h coolsDown).1 (by simp [coolsDown])
  have hlast := hpackets [.connection true, .packet ⟨1, 50.0, 30.0, 100⟩]
    ⟨1, 20.0, 30.0, 101⟩ [] rfl rfl
  exact absurd hlast (by decide +kernel)

end AlarmPage

end IotEdge.Monitor
