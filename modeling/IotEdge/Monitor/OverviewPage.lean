import IotEdge.Lib.Machine
import IotEdge.Monitor.AlarmPage

/-!
# The overview page

`OverviewPage` shows both values on gauges whose needles move to the new value a little
with every tick of a timer.  A gauge is red while its value is over the limit.
`updateSensorData` compares the new value, the target of the needle, and
`updateThresholds` compares the value the needle points at.

So a new limit makes the colours wrong when a needle and the last reading are on different
sides of it, and only then (`alarms_follow_iff`).
-/

namespace IotEdge.Monitor

/-- `OverviewPage`, with the last packet. -/
structure OverviewPage (α : Type) where
  currentTemp : α
  currentHumi : α
  targetTemp : α
  targetHumi : α
  tempMaxLimit : α
  humiMaxLimit : α
  isConnected : Bool
  tempAlarm : Bool
  humiAlarm : Bool
  /-- `m_animTimer` is active. -/
  timerActive : Bool
  /-- The last packet. -/
  latest : Option (DeviceDataPacket α)

/-- What happens to the page. -/
inductive OverviewEvent (α : Type) where
  /-- A packet. -/
  | packet (packet : DeviceDataPacket α)
  /-- The connection is made or lost. -/
  | connection (connected : Bool)
  /-- New limits. -/
  | thresholds (tempMax humiMax : α)
  /-- The timer fires. -/
  | tick

variable {α : Type} [Add α] [Sub α] [Mul α] [Neg α] [LT α] [DecidableLT α] [LE α] [DecidableLE α]
  [BEq α] [OfScientific α]

/-- `qAbs`. -/
def qAbs (x : α) : α := if (0.0 : α) ≤ x then x else -x

/-- The needle after a tick, and whether it moved. -/
def animate (current target : α) : α × Bool :=
  if (0.05 : α) < qAbs (current - target) then (current + (target - current) * 0.08, true)
  else if current != target then (target, true)
  else (current, false)

namespace OverviewPage

/-- The page when it is made. -/
def init : OverviewPage α :=
  ⟨0.0, 0.0, 0.0, 0.0, 40.0, 80.0, false, false, false, false, none⟩

/-- `OverviewPage::updateSensorData`. -/
def updateSensorData (page : OverviewPage α) (packet : DeviceDataPacket α) : OverviewPage α :=
  { page with
    targetTemp := packet.temperature
    targetHumi := packet.humidity
    tempAlarm := decide (page.tempMaxLimit < packet.temperature)
    humiAlarm := decide (page.humiMaxLimit < packet.humidity)
    timerActive := true
    latest := some packet }

/-- `OverviewPage::updateConnectionStatus`. -/
def updateConnectionStatus (page : OverviewPage α) (connected : Bool) : OverviewPage α :=
  if connected then { page with isConnected := true }
  else { page with isConnected := false, targetTemp := 0.0, targetHumi := 0.0 }

/-- `OverviewPage::updateThresholds`. -/
def updateThresholds (page : OverviewPage α) (tempMax humiMax : α) : OverviewPage α :=
  { page with
    tempMaxLimit := tempMax
    humiMaxLimit := humiMax
    tempAlarm := decide (tempMax < page.currentTemp)
    humiAlarm := decide (humiMax < page.currentHumi) }

/-- `needUpdate`: a needle moves, and the page is painted again. -/
def needUpdate (page : OverviewPage α) : Bool :=
  (animate page.currentTemp page.targetTemp).2 || (animate page.currentHumi page.targetHumi).2

/-- What the timer calls.  It stops when no needle moved and both are at their targets. -/
def tick (page : OverviewPage α) : OverviewPage α :=
  let temp := (animate page.currentTemp page.targetTemp).1
  let humi := (animate page.currentHumi page.targetHumi).1
  { page with
    currentTemp := temp
    currentHumi := humi
    timerActive := page.timerActive &&
      !(!page.needUpdate && temp == page.targetTemp && humi == page.targetHumi) }

/-- One event.  The timer fires only while it is active. -/
def step (page : OverviewPage α) : OverviewEvent α → Option (OverviewPage α)
  | .packet packet => some (page.updateSensorData packet)
  | .connection connected => some (page.updateConnectionStatus connected)
  | .thresholds tempMax humiMax => some (page.updateThresholds tempMax humiMax)
  | .tick => if page.timerActive then some page.tick else none

/-- An event calls `update()`, and the page is painted again. -/
def repaints (page : OverviewPage α) : OverviewEvent α → Bool
  | .packet _ => false
  | .connection _ | .thresholds _ _ => true
  | .tick => page.needUpdate

/-- The page. -/
def machine (α : Type) [Add α] [Sub α] [Mul α] [Neg α] [LT α] [DecidableLT α] [LE α]
    [DecidableLE α] [BEq α] [OfScientific α] : Machine (OverviewPage α) (OverviewEvent α) :=
  ⟨.init, step⟩

/-! ## The colours and the last packet -/

/-- After a packet, the colours are those of the last packet and the limits in force, and
a page of alarms with these limits triggers just the alarms that are shown. -/
def Follows (page : OverviewPage α) : Prop :=
  ∀ packet, page.latest = some packet →
    page.tempAlarm = decide (page.tempMaxLimit < packet.temperature) ∧
    page.humiAlarm = decide (page.humiMaxLimit < packet.humidity) ∧
    ∀ alarmPage : AlarmPage α, alarmPage.tempMaxLimit = page.tempMaxLimit →
      alarmPage.humiMaxLimit = page.humiMaxLimit → ∀ isTemperature,
        (alarmPage.updateSensorData packet).count isTemperature = alarmPage.count isTemperature +
          if (if isTemperature then page.tempAlarm else page.humiAlarm) then 1 else 0

/-- A new limit and the last packet: for both values, the needle is over the limit just
when the packet is. -/
def SameSide (page : OverviewPage α) (event : OverviewEvent α) : Prop :=
  ∀ tempMax humiMax packet, event = .thresholds tempMax humiMax → page.latest = some packet →
    (tempMax < page.currentTemp ↔ tempMax < packet.temperature) ∧
      (humiMax < page.currentHumi ↔ humiMax < packet.humidity)

section Colours

omit [Add α] [Sub α] [Mul α] [Neg α] [LE α] [DecidableLE α] [BEq α] [OfScientific α]

/-- Colours of the last packet are what a page of alarms decides. -/
theorem follows_iff {page : OverviewPage α} : Follows page ↔
    ∀ packet, page.latest = some packet →
      page.tempAlarm = decide (page.tempMaxLimit < packet.temperature) ∧
        page.humiAlarm = decide (page.humiMaxLimit < packet.humidity) := by
  refine forall_congr' fun packet => imp_congr_right fun _ => and_congr_right fun htemp => ?_
  refine and_iff_left_of_imp fun hhumi alarmPage htempMax hhumiMax isTemperature => ?_
  rw [AlarmPage.count_updateSensorData]
  cases isTemperature with
  | true => simp [AlarmPage.limit, DeviceDataPacket.reading, htemp, htempMax]
  | false => simp [AlarmPage.limit, DeviceDataPacket.reading, hhumi, hhumiMax]

/-- The colours do not depend on the needles. -/
theorem Follows.of_eq {page page' : OverviewPage α} (h : Follows page)
    (hlatest : page'.latest = page.latest) (htempMax : page'.tempMaxLimit = page.tempMaxLimit)
    (hhumiMax : page'.humiMaxLimit = page.humiMaxLimit) (htemp : page'.tempAlarm = page.tempAlarm)
    (hhumi : page'.humiAlarm = page.humiAlarm) : Follows page' := by
  rw [follows_iff, hlatest, htempMax, hhumiMax, htemp, hhumi]
  exact follows_iff.mp h

theorem follows_updateThresholds_iff (page : OverviewPage α) (tempMax humiMax : α) :
    Follows (page.updateThresholds tempMax humiMax) ↔
      SameSide page (.thresholds tempMax humiMax) := by
  rw [follows_iff]
  constructor
  · intro h tempMax' humiMax' packet hevent hlatest
    cases hevent
    obtain ⟨htemp, hhumi⟩ := h packet hlatest
    exact ⟨decide_eq_decide.mp htemp, decide_eq_decide.mp hhumi⟩
  · intro h packet hlatest
    obtain ⟨htemp, hhumi⟩ := h tempMax humiMax packet rfl hlatest
    exact ⟨decide_eq_decide.mpr htemp, decide_eq_decide.mpr hhumi⟩

end Colours

/-- An event keeps the colours right just when it is no new limit between a needle and the
last reading. -/
theorem step_follows_iff {page page' : OverviewPage α} {event : OverviewEvent α}
    (h : Follows page) (hs : page.step event = some page') :
    Follows page' ↔ SameSide page event := by
  cases event with
  | packet packet =>
      cases hs
      refine iff_of_true (follows_iff.mpr fun packet' hlatest => ?_) fun _ _ _ hevent => by
        cases hevent
      cases hlatest
      exact ⟨rfl, rfl⟩
  | connection connected =>
      cases hs
      refine iff_of_true ?_ fun _ _ _ hevent => by cases hevent
      cases connected <;> exact h.of_eq rfl rfl rfl rfl rfl
  | thresholds tempMax humiMax =>
      cases hs
      exact follows_updateThresholds_iff page tempMax humiMax
  | tick =>
      rw [step] at hs
      split at hs
      next =>
        cases hs
        exact iff_of_true (h.of_eq rfl rfl rfl rfl rfl) fun _ _ _ hevent => by cases hevent
      next => cases hs

/-- Along any run, the colours are those of the last packet and the limits in force, just
when for each new limit each needle is on the side of the last reading. -/
theorem alarms_follow_iff {events : List (OverviewEvent α)} {page : OverviewPage α}
    (hrun : (machine α).run events = some page) :
    (machine α).Always events Follows ↔ (machine α).EachStep events SameSide :=
  Machine.always_iff_eachStep (fun _ h => by cases h) (fun _ h hs => step_follows_iff h hs) hrun

/-- A reading of 50 degrees, and then a limit of 45 degrees. -/
def hotThenLimit : List (OverviewEvent Float) :=
  [.packet ⟨1, 50.0, 30.0, 100⟩, .thresholds 45.0 80.0]

/-- The needle still points at 0. -/
theorem alarms_follow_iff_hot : ¬ (machine Float).Always hotThenLimit Follows := by
  have hrun : ∃ page, (machine Float).run hotThenLimit = some page := ⟨_, rfl⟩
  obtain ⟨page, hpage⟩ := hrun
  intro h
  have hside := (alarms_follow_iff hpage).mp h [.packet ⟨1, 50.0, 30.0, 100⟩]
    (.thresholds 45.0 80.0) (List.prefix_refl _) _ rfl
  have htemp := (hside 45.0 80.0 ⟨1, 50.0, 30.0, 100⟩ rfl rfl).1
  exact absurd (htemp.mpr (by decide)) (by decide)

/-- The gauge is not red although the last reading is over the limit. -/
theorem limit_hides_alarm : ¬ ∀ page, (machine Float).Reachable page → Follows page := by
  intro h
  have hrun : ∃ page, (machine Float).run hotThenLimit = some page ∧
      page.latest = some ⟨1, 50.0, 30.0, 100⟩ ∧ page.tempMaxLimit = 45.0 ∧
      page.tempAlarm = decide ((45.0 : Float) < 0.0) := ⟨_, rfl, rfl, rfl, rfl⟩
  obtain ⟨page, hpage, hlatest, hlimit, halarm⟩ := hrun
  have htemp := (h page (.of_run hpage) _ hlatest).1
  rw [halarm, hlimit] at htemp
  exact absurd htemp (by decide)

end OverviewPage

end IotEdge.Monitor
