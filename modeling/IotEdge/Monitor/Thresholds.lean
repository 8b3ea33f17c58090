import IotEdge.Lib.Machine
import IotEdge.Monitor.AlarmIndicator
import IotEdge.Monitor.OverviewPage

/-!
# The limits

`mainWidget`, `OverviewPage` and `AlarmPage` have each their own limits, and `AlarmPage` has
two spin boxes besides.  A spin box that changes emits a signal, and the signal comes back
through `mainWidget` to `AlarmPage::updateThresholds`, which sets the spin boxes again with
their signals blocked.

Signals are calls.  `setValue` has a bound on how deep they nest, and has no result when
they nest deeper.  `thresholds_agree` says that the second level is always the last.
-/

namespace IotEdge.Monitor

/-- A `QDoubleSpinBox`. -/
structure SpinBox where
  value : Float
  signalsBlocked : Bool

/-- The two limits. -/
inductive Limit where
  | temp
  | humi
deriving DecidableEq, Repr

/-- The other limit. -/
def Limit.other : Limit → Limit
  | temp => humi
  | humi => temp

/-- A number in a JSON object that is sent. -/
inductive JsonNumber where
  | double (x : Float)
  | int (n : Int)

/-- A message that is published. -/
structure Publication where
  topic : String
  members : List (String × JsonNumber)

/-- What `mainWidget` and its pages hold of the limits, and what was published. -/
structure MainWidget where
  tempMaxLimit : Float
  humiMaxLimit : Float
  nextRequestId : Int
  /-- The state of the client is `Connected`. -/
  mqttConnected : Bool
  overviewPage : OverviewPage Float
  alarmPage : AlarmPage Float
  spinTempLimit : SpinBox
  spinHumiLimit : SpinBox
  /-- The messages that were published, in order. -/
  published : List Publication

/-- What happens to the limits. -/
inductive ThresholdsEvent where
  /-- A message of the topic `gateway/thresholds`. -/
  | message (payload : List UInt8)
  /-- The user changes a spin box. -/
  | edit (limit : Limit) (value : Float)
  /-- The client is connected, with the clock in seconds. -/
  | connected (now : Float)
  /-- The client is disconnected. -/
  | disconnected

/-- The message of the topic `gateway/thresholds/set`. -/
def thresholdsSet (tempMax humiMax : Float) : Publication :=
  ⟨"gateway/thresholds/set", [("temp_max", .double tempMax), ("humi_max", .double humiMax)]⟩

namespace MainWidget

/-- The spin box of a limit. -/
def box (w : MainWidget) : Limit → SpinBox
  | .temp => w.spinTempLimit
  | .humi => w.spinHumiLimit

/-- The spin box of a limit is replaced. -/
def setBox (w : MainWidget) (box : SpinBox) : Limit → MainWidget
  | .temp => { w with spinTempLimit := box }
  | .humi => { w with spinHumiLimit := box }

/-- `QObject::blockSignals`. -/
def blockSignals (w : MainWidget) (limit : Limit) (block : Bool) : MainWidget :=
  w.setBox ⟨(w.box limit).value, block⟩ limit

/-- `mainWidget::sendThresholdConfig`. -/
def sendThresholdConfig (w : MainWidget) (tempMax humiMax : Float) : MainWidget :=
  if w.mqttConnected then { w with published := w.published ++ [thresholdsSet tempMax humiMax] }
  else w

/-- `mainWidget::requestAlarmLogs`. -/
def requestAlarmLogs (w : MainWidget) (startTime endTime : Float) (limit : Int) : MainWidget :=
  if w.mqttConnected then
    { w with
      nextRequestId := w.nextRequestId + 1
      published := w.published ++ [⟨"gateway/alarm/req", [("start_time", .double startTime),
        ("end_time", .double endTime), ("limit", .int limit),
        ("request_id", .int w.nextRequestId)]⟩] }
  else w

/-! ## Signals -/

section Signals

variable (setValue : Limit → Float → MainWidget → Option MainWidget)

/-- `AlarmPage::updateThresholds`, with the spin boxes. -/
def updateThresholds (tempMax humiMax : Float) (w : MainWidget) : Option MainWidget := do
  let w := { w with alarmPage := w.alarmPage.updateThresholds tempMax humiMax }
  let w ← setValue .temp tempMax (w.blockSignals .temp true)
  let w := w.blockSignals .temp false
  let w ← setValue .humi humiMax (w.blockSignals .humi true)
  some (w.blockSignals .humi false)

/-- `mainWidget::onThresholdsChanged`. -/
def onThresholdsChanged (tempMax humiMax : Float) (w : MainWidget) : Option MainWidget := do
  let w := { w with
    tempMaxLimit := tempMax
    humiMaxLimit := humiMax
    overviewPage := w.overviewPage.updateThresholds tempMax humiMax }
  let w ← w.updateThresholds setValue tempMax humiMax
  some (w.sendThresholdConfig tempMax humiMax)

/-- What `valueChanged` of a spin box is connected to. -/
def valueChanged (limit : Limit) (v : Float) (w : MainWidget) : Option MainWidget :=
  let w : MainWidget :=
    match limit with
    | .temp => { w with alarmPage := { w.alarmPage with tempMaxLimit := v } }
    | .humi => { w with alarmPage := { w.alarmPage with humiMaxLimit := v } }
  w.onThresholdsChanged setValue w.alarmPage.tempMaxLimit w.alarmPage.humiMaxLimit

end Signals

variable (qt : Qt) (bound : Float → Float)

/-- `QDoubleSpinBox::setValue`, where `bound` rounds a value and brings it into the range of
the box.  Signals nest at most `depth` deep. -/
def setValue : Nat → Limit → Float → MainWidget → Option MainWidget
  | 0, _, _, _ => none
  | depth + 1, limit, value, w =>
      let box := w.box limit
      let w := w.setBox ⟨bound value, box.signalsBlocked⟩ limit
      if bound value != box.value ∧ box.signalsBlocked = false then
        valueChanged (setValue depth) limit (bound value) w
      else some w

/-- `mainWidget::onThresholdsMessage`. -/
def onThresholdsMessage (depth : Nat) (payload : List UInt8) (w : MainWidget) :
    Option MainWidget :=
  match qt.fromJson payload with
  | none => some w
  | some obj =>
      let tempMax := (obj "temp_max").toDouble 40.0
      let humiMax := (obj "humi_max").toDouble 80.0
      let w := { w with
        tempMaxLimit := tempMax
        humiMaxLimit := humiMax
        overviewPage := w.overviewPage.updateThresholds tempMax humiMax }
      w.updateThresholds (setValue bound depth) tempMax humiMax

/-- `mainWidget::onMqttConnected`. -/
def onMqttConnected (now : Float) (w : MainWidget) : MainWidget :=
  let w := { w with
    mqttConnected := true
    overviewPage := w.overviewPage.updateConnectionStatus true
    alarmPage := w.alarmPage.updateConnectionStatus true }
  w.requestAlarmLogs 0.0 now 500

/-- `mainWidget::onMqttDisconnected`. -/
def onMqttDisconnected (w : MainWidget) : MainWidget :=
  { w with
    mqttConnected := false
    overviewPage := w.overviewPage.updateConnectionStatus false
    alarmPage := w.alarmPage.updateConnectionStatus false }

/-- One event.  The user changes a spin box only to another value. -/
def step (depth : Nat) (w : MainWidget) : ThresholdsEvent → Option MainWidget
  | .message payload => onThresholdsMessage qt bound depth payload w
  | .edit limit value =>
      if bound value != (w.box limit).value then setValue bound depth limit value w else none
  | .connected now => some (w.onMqttConnected now)
  | .disconnected => some w.onMqttDisconnected

/-- The main window when it is made. -/
def init : MainWidget where
  tempMaxLimit := 40.0
  humiMaxLimit := 80.0
  nextRequestId := 0
  mqttConnected := false
  overviewPage := .init
  alarmPage := .init
  spinTempLimit := ⟨bound 40.0, false⟩
  spinHumiLimit := ⟨bound 80.0, false⟩
  published := []

/-- The main window. -/
def machine (depth : Nat) : Machine MainWidget ThresholdsEvent := ⟨init bound, step qt bound depth⟩

/-! ## What the handlers do -/

/-- The limits are set everywhere. -/
def accept (w : MainWidget) (tempMax humiMax : Float) : MainWidget :=
  { w with
    tempMaxLimit := tempMax
    humiMaxLimit := humiMax
    overviewPage := w.overviewPage.updateThresholds tempMax humiMax
    alarmPage := w.alarmPage.updateThresholds tempMax humiMax
    spinTempLimit := ⟨bound tempMax, false⟩
    spinHumiLimit := ⟨bound humiMax, false⟩ }

/-- The limit of `mainWidget`. -/
def limit (w : MainWidget) : Limit → Float
  | .temp => w.tempMaxLimit
  | .humi => w.humiMaxLimit

variable {qt bound}

/-- A spin box that is blocked changes and tells nobody. -/
theorem setValue_of_blocked {w : MainWidget} {limit : Limit}
    (h : (w.box limit).signalsBlocked = true) (depth : Nat) (value : Float) :
    setValue bound (depth + 1) limit value w = some (w.setBox ⟨bound value, true⟩ limit) := by
  simp [setValue, h]

theorem updateThresholds_eq (depth : Nat) (tempMax humiMax : Float) (w : MainWidget) :
    updateThresholds (setValue bound (depth + 1)) tempMax humiMax w =
      some { w with
        alarmPage := w.alarmPage.updateThresholds tempMax humiMax
        spinTempLimit := ⟨bound tempMax, false⟩
        spinHumiLimit := ⟨bound humiMax, false⟩ } := by
  rw [updateThresholds, setValue_of_blocked rfl, Option.bind_eq_bind, Option.bind_some]
  dsimp only
  rw [setValue_of_blocked rfl, Option.bind_some]
  rfl

theorem onThresholdsChanged_eq (depth : Nat) (tempMax humiMax : Float) (w : MainWidget) :
    onThresholdsChanged (setValue bound (depth + 1)) tempMax humiMax w =
      some ((w.accept bound tempMax humiMax).sendThresholdConfig tempMax humiMax) := by
  rw [onThresholdsChanged, updateThresholds_eq]
  rfl

/-- The limits after the user has changed one of them. -/
def edited (w : MainWidget) (limit : Limit) (v : Float) : Limit → Float :=
  fun l => if l = limit then v else w.limit l

/-- The copies of the limits are equal. -/
structure Agrees (w : MainWidget) : Prop where
  overviewTemp : w.overviewPage.tempMaxLimit = w.tempMaxLimit
  overviewHumi : w.overviewPage.humiMaxLimit = w.humiMaxLimit
  alarmTemp : w.alarmPage.tempMaxLimit = w.tempMaxLimit
  alarmHumi : w.alarmPage.humiMaxLimit = w.humiMaxLimit

variable (bound) in
/-- No signal is under way: the copies agree, and the spin boxes show them, as far as they
can, and are not blocked. -/
structure AtRest (w : MainWidget) : Prop extends Agrees w where
  spinTemp : w.spinTempLimit = ⟨bound w.tempMaxLimit, false⟩
  spinHumi : w.spinHumiLimit = ⟨bound w.humiMaxLimit, false⟩

/-- A change by the user goes everywhere, and is published once. -/
theorem setValue_of_changed {w : MainWidget} (h : w.AtRest bound) {limit : Limit} {value : Float}
    (hchanged : (bound value != (w.box limit).value) = true) (depth : Nat) :
    setValue bound (depth + 2) limit value w =
      some ((w.accept bound (w.edited limit (bound value) .temp)
        (w.edited limit (bound value) .humi)).sendThresholdConfig
          (w.edited limit (bound value) .temp) (w.edited limit (bound value) .humi)) := by
  have hfree : (w.box limit).signalsBlocked = false := by
    cases limit with
    | temp => rw [box, h.spinTemp]
    | humi => rw [box, h.spinHumi]
  rw [setValue]
  simp only [hchanged, hfree, and_self, if_true, valueChanged]
  cases limit with
  | temp =>
      rw [onThresholdsChanged_eq]
      simp only [setBox, h.alarmHumi]
      rfl
  | humi =>
      rw [onThresholdsChanged_eq]
      simp only [setBox, h.alarmTemp]
      rfl

theorem atRest_accept (w : MainWidget) (tempMax humiMax : Float) :
    (w.accept bound tempMax humiMax).AtRest bound := ⟨⟨rfl, rfl, rfl, rfl⟩, rfl, rfl⟩

theorem AtRest.sendThresholdConfig {w : MainWidget} (h : w.AtRest bound) (tempMax humiMax : Float) :
    (w.sendThresholdConfig tempMax humiMax).AtRest bound := by
  rw [MainWidget.sendThresholdConfig]
  split
  next => exact ⟨⟨h.overviewTemp, h.overviewHumi, h.alarmTemp, h.alarmHumi⟩, h.spinTemp, h.spinHumi⟩
  next => exact h

theorem AtRest.onMqttConnected {w : MainWidget} (h : w.AtRest bound) (now : Float) :
    (w.onMqttConnected now).AtRest bound := by
  rw [MainWidget.onMqttConnected, requestAlarmLogs, if_pos rfl]
  exact ⟨⟨h.overviewTemp, h.overviewHumi, h.alarmTemp, h.alarmHumi⟩, h.spinTemp, h.spinHumi⟩

theorem AtRest.onMqttDisconnected {w : MainWidget} (h : w.AtRest bound) :
    w.onMqttDisconnected.AtRest bound :=
  ⟨⟨h.overviewTemp, h.overviewHumi, h.alarmTemp, h.alarmHumi⟩, h.spinTemp, h.spinHumi⟩

/-- A message of the server goes everywhere, and nothing is published. -/
theorem onThresholdsMessage_eq (depth : Nat) (payload : List UInt8) (w : MainWidget) :
    onThresholdsMessage qt bound (depth + 1) payload w = some w ∨
      ∃ tempMax humiMax, onThresholdsMessage qt bound (depth + 1) payload w =
        some (w.accept bound tempMax humiMax) := by
  rw [onThresholdsMessage]
  split
  next => exact .inl rfl
  next obj _ =>
    refine .inr ⟨(obj "temp_max").toDouble 40.0, (obj "humi_max").toDouble 80.0, ?_⟩
    rw [updateThresholds_eq]
    rfl

/-! ## Every order of events -/

/-- An event that can happen: a change by the user is a change. -/
def Possible (bound : Float → Float) (w : MainWidget) (event : ThresholdsEvent) : Prop :=
  ∀ limit value, event = .edit limit value → (bound value != (w.box limit).value) = true

/-- What an event does. -/
structure Handles (bound : Float → Float) (w : MainWidget) (event : ThresholdsEvent)
    (w' : MainWidget) : Prop where
  atRest : w'.AtRest bound
  /-- The other limit does not change, and the new pair is published once. -/
  edit : ∀ limit value, event = .edit limit value →
    w'.limit limit = bound value ∧ w'.limit limit.other = w.limit limit.other ∧
      w'.published = w.published ++
        if w.mqttConnected then [thresholdsSet (w'.limit .temp) (w'.limit .humi)] else []
  /-- A message of the server publishes nothing. -/
  message : ∀ payload, event = .message payload → w'.published = w.published

theorem limit_sendThresholdConfig (w : MainWidget) (tempMax humiMax : Float) (limit : Limit) :
    (w.sendThresholdConfig tempMax humiMax).limit limit = w.limit limit := by
  rw [sendThresholdConfig]
  split <;> cases limit <;> rfl

theorem published_sendThresholdConfig (w : MainWidget) (tempMax humiMax : Float) :
    (w.sendThresholdConfig tempMax humiMax).published = w.published ++
      if w.mqttConnected then [thresholdsSet tempMax humiMax] else [] := by
  rw [sendThresholdConfig]
  split
  next => rfl
  next => rw [List.append_nil]

theorem limit_accept (w : MainWidget) (limits : Limit → Float) (limit : Limit) :
    (w.accept bound (limits .temp) (limits .humi)).limit limit = limits limit := by
  cases limit <;> rfl

/-- Every possible event is handled, with the signals nested twice. -/
theorem exists_step {w : MainWidget} (h : w.AtRest bound) {event : ThresholdsEvent}
    (hpossible : Possible bound w event) (depth : Nat) :
    ∃ w', step qt bound (depth + 2) w event = some w' ∧ Handles bound w event w' := by
  cases event with
  | message payload =>
      have hnot : ∀ limit value, ThresholdsEvent.message payload ≠ .edit limit value :=
        fun _ _ h => by cases h
      rw [step]
      rcases onThresholdsMessage_eq (depth + 1) payload w with heq | ⟨tempMax, humiMax, heq⟩
      · exact ⟨w, heq, h, fun l v he => absurd he (hnot l v), fun _ _ => rfl⟩
      · exact ⟨_, heq, atRest_accept w _ _, fun l v he => absurd he (hnot l v), fun _ _ => rfl⟩
  | edit limit value =>
      have hchanged := hpossible limit value rfl
      rw [step, if_pos hchanged, setValue_of_changed h hchanged]
      refine ⟨_, rfl, (atRest_accept w _ _).sendThresholdConfig _ _, ?_, fun _ he => (by cases he)⟩
      intro l v he
      cases he
      rw [limit_sendThresholdConfig, limit_sendThresholdConfig, limit_sendThresholdConfig,
        limit_sendThresholdConfig, limit_accept, limit_accept, limit_accept, limit_accept]
      exact ⟨if_pos rfl, if_neg (by cases limit <;> decide), published_sendThresholdConfig _ _ _⟩
  | connected now =>
      exact ⟨_, rfl, h.onMqttConnected now, fun _ _ he => (by cases he), fun _ he => (by cases he)⟩
  | disconnected =>
      exact ⟨_, rfl, h.onMqttDisconnected, fun _ _ he => (by cases he), fun _ he => (by cases he)⟩

/-- Between the events no signal is under way. -/
theorem atRest_of_reachable {depth : Nat} {w : MainWidget}
    (h : (machine qt bound (depth + 2)).Reachable w) : w.AtRest bound := by
  refine h.invariant ⟨⟨rfl, rfl, rfl, rfl⟩, rfl, rfl⟩ fun {s event s'} hs hstep => ?_
  have hpossible : Possible bound s event := by
    rintro limit value rfl
    by_contra hsame
    have hnone : step qt bound (depth + 2) s (.edit limit value) = none := if_neg hsame
    exact absurd (hnone.symm.trans hstep) (by simp)
  obtain ⟨w', hw', hhandles⟩ := exists_step hs hpossible depth
  have hsome : some w' = some s' := hw'.symm.trans hstep
  cases hsome
  exact hhandles.atRest

end MainWidget

/-- In every order of events the copies of the limits agree, every event is handled without
a signal coming back, a change of one limit leaves the other one and is published once, and
a message of the server is not answered. -/
theorem thresholds_agree (qt : Qt) (bound : Float → Float) (depth : Nat) {w : MainWidget}
    (h : (MainWidget.machine qt bound (depth + 2)).Reachable w) :
    w.Agrees ∧ ∀ event, MainWidget.Possible bound w event →
      ∃ w', (MainWidget.machine qt bound (depth + 2)).step w event = some w' ∧
        MainWidget.Handles bound w event w' :=
  ⟨(MainWidget.atRest_of_reachable h).toAgrees, fun _ hpossible =>
    MainWidget.exists_step (MainWidget.atRest_of_reachable h) hpossible depth⟩

/-- The range of the spin boxes. -/
def spinRange (value : Float) : Float :=
  if value < 0.0 then 0.0 else if (100.0 : Float) < value then 100.0 else value

/-- A message of the server with one of the limits. -/
def hotMessage : List UInt8 := CString.ascii "\x7b\"temp_max\":35\x7d"

/-- It is read as an object with this member. -/
def readsHotMessage : Qt :=
  { plainNumbers with
    fromJson := fun payload =>
      if payload = hotMessage then
        some fun member => if member = "temp_max" then .double 35.0 else .undefined
      else none }

/-- The user changes the limit of the temperature, and then the server does. -/
theorem thresholds_agree_edited :
    let machine := MainWidget.machine readsHotMessage spinRange 2
    ∃ w, machine.run [.connected 100.0, .edit .temp 30.0, .message hotMessage] = some w ∧
      w.tempMaxLimit = 35.0 ∧ w.published.length = 2 ∧ w.Agrees ∧
      ∀ event, MainWidget.Possible spinRange w event →
        ∃ w', machine.step w event = some w' ∧ MainWidget.Handles spinRange w event w' := by
  intro machine
  obtain ⟨w, hw, hstate⟩ := Option.map_eq_some_iff.mp
    (by decide +kernel : (machine.run [.connected 100.0, .edit .temp 30.0,
      .message hotMessage]).map (fun w => (w.tempMaxLimit, w.published.length)) = some (35.0, 2))
  obtain ⟨htemp, hpublished⟩ := Prod.mk.inj hstate
  exact ⟨w, hw, htemp, hpublished, thresholds_agree readsHotMessage spinRange 0 ⟨_, hw⟩⟩

end IotEdge.Monitor
