import IotEdge.Lib.Easing
import IotEdge.Monitor.OverviewPage

/-!
# The needles arrive

With exact numbers the needles of the gauges ease towards their targets, each at its own distance.
The timer ticks once more when both have arrived, and stops (`gauge_settles`).

New limits do not move a needle.  So only the ticks are counted, however many new limits come
between them.
-/

namespace IotEdge.Monitor

/-- The timer fires. -/
def OverviewEvent.isTick {α : Type} : OverviewEvent α → Bool
  | .tick => true
  | _ => false

/-- Neither a packet nor a change of the connection. -/
def OverviewEvent.keepsTargets {α : Type} : OverviewEvent α → Bool
  | .tick | .thresholds _ _ => true
  | _ => false

namespace OverviewPage

/-! ## One tick -/

/-- A needle that is not at its target comes closer to it, and does not pass it. -/
structure Approaches (target before after : ℚ) : Prop where
  not_past : after ∈ Set.uIcc before target
  closer : before ≠ target → |after - target| < |before - target|

/-- What a tick does. -/
structure Animates (page page' : OverviewPage ℚ) : Prop where
  temp : Approaches page.targetTemp page.currentTemp page'.currentTemp
  humi : Approaches page.targetHumi page.currentHumi page'.currentHumi
  targets : page'.targetTemp = page.targetTemp ∧ page'.targetHumi = page.targetHumi
  /-- A needle does not move unseen. -/
  repaints : page'.currentTemp ≠ page.currentTemp ∨ page'.currentHumi ≠ page.currentHumi →
    page.repaints .tick = true

/-- A needle behind a tick. -/
def needle (target : ℚ) : ℚ → ℚ := Easing.ease 0.08 0.05 target

theorem qAbs_eq_abs (x : ℚ) : qAbs x = |x| := by
  have hzero : (0.0 : ℚ) = 0 := by norm_num
  rw [qAbs, hzero]
  split
  next h => exact (abs_of_nonneg h).symm
  next h => exact (abs_of_neg (not_le.mp h)).symm

theorem animate_fst (current target : ℚ) : (animate current target).1 = needle target current := by
  rw [animate, qAbs_eq_abs, needle, Easing.ease]
  split
  next => rfl
  next =>
    split
    next => rfl
    next hsame => exact not_not.mp fun hne => hsame (bne_iff_ne.mpr hne)

/-- `needUpdate` is set just for a needle that is not at its target. -/
theorem animate_snd (current target : ℚ) :
    (animate current target).2 = true ↔ current ≠ target := by
  rw [animate, qAbs_eq_abs]
  split
  next hfar =>
    refine iff_of_true rfl ?_
    rintro rfl
    rw [sub_self, abs_zero] at hfar
    exact absurd hfar (by norm_num)
  next =>
    split
    next hne => exact iff_of_true rfl (bne_iff_ne.mp hne)
    next hsame => exact iff_of_false Bool.false_ne_true fun hne => hsame (bne_iff_ne.mpr hne)

theorem needle_self (target : ℚ) : needle target target = target :=
  Easing.ease_self (by norm_num)

theorem approaches_needle (target current : ℚ) :
    Approaches target current (needle target current) where
  not_past := Easing.ease_mem_uIcc (by norm_num) (by norm_num)
  closer := Easing.abs_ease_sub_lt (by norm_num) (by norm_num)

theorem exists_needle_arrival (target current : ℚ) :
    ∃ n, ∀ k, (needle target)^[k] current = target ↔ n ≤ k :=
  Easing.exists_arrival (by norm_num) (by norm_num) (by norm_num) target current

theorem tick_currentTemp (page : OverviewPage ℚ) :
    page.tick.currentTemp = needle page.targetTemp page.currentTemp := animate_fst _ _

theorem tick_currentHumi (page : OverviewPage ℚ) :
    page.tick.currentHumi = needle page.targetHumi page.currentHumi := animate_fst _ _

/-- The page is painted again while a needle is not at its target. -/
theorem needUpdate_iff (page : OverviewPage ℚ) : page.needUpdate = true ↔
    ¬ (page.currentTemp = page.targetTemp ∧ page.currentHumi = page.targetHumi) := by
  rw [needUpdate, Bool.or_eq_true, animate_snd, animate_snd, not_and_or]

/-- The timer stops just when no needle moved. -/
theorem tick_timerActive (page : OverviewPage ℚ) : page.tick.timerActive = true ↔
    page.timerActive = true ∧
      ¬ (page.currentTemp = page.targetTemp ∧ page.currentHumi = page.targetHumi) := by
  have hstops : (!page.needUpdate && page.tick.currentTemp == page.targetTemp &&
      page.tick.currentHumi == page.targetHumi) = !page.needUpdate := by
    cases hneed : page.needUpdate with
    | true => rfl
    | false =>
        have hboth := not_not.mp ((needUpdate_iff page).not.mp (by rw [hneed]; decide))
        rw [tick_currentTemp, tick_currentHumi, hboth.1, hboth.2, needle_self, needle_self,
          beq_self_eq_true, beq_self_eq_true]
        rfl
  have htick : page.tick.timerActive = (page.timerActive &&
      !(!page.needUpdate && page.tick.currentTemp == page.targetTemp &&
        page.tick.currentHumi == page.targetHumi)) := rfl
  rw [htick, hstops, Bool.not_not, Bool.and_eq_true, needUpdate_iff]

theorem animates_tick (page : OverviewPage ℚ) : Animates page page.tick where
  temp := by
    rw [tick_currentTemp]
    exact approaches_needle _ _
  humi := by
    rw [tick_currentHumi]
    exact approaches_needle _ _
  targets := ⟨rfl, rfl⟩
  repaints := fun hmoves => by
    refine (needUpdate_iff page).mpr fun hboth => ?_
    rw [tick_currentTemp, tick_currentHumi, hboth.1, hboth.2, needle_self, needle_self] at hmoves
    exact hmoves.elim (absurd rfl) (absurd rfl)

/-! ## Ticks -/

/-- A page behind `k` ticks, where both needles have arrived after `arrival`. -/
structure Ticked (page : OverviewPage ℚ) (arrival k : ℕ) (page' : OverviewPage ℚ) : Prop where
  targetTemp : page'.targetTemp = page.targetTemp
  targetHumi : page'.targetHumi = page.targetHumi
  currentTemp : page'.currentTemp = (needle page.targetTemp)^[k] page.currentTemp
  currentHumi : page'.currentHumi = (needle page.targetHumi)^[k] page.currentHumi
  le : k ≤ arrival + 1
  active_iff : page'.timerActive = true ↔ k < arrival + 1

/-- Both needles are at their targets from a tick on, and not before it. -/
def ArriveAt (page : OverviewPage ℚ) (arrival : ℕ) : Prop :=
  ∀ k, (needle page.targetTemp)^[k] page.currentTemp = page.targetTemp ∧
    (needle page.targetHumi)^[k] page.currentHumi = page.targetHumi ↔ arrival ≤ k

/-- The later one of the two arrivals. -/
theorem exists_arriveAt (page : OverviewPage ℚ) : ∃ arrival, page.ArriveAt arrival := by
  obtain ⟨temp, htemp⟩ := exists_needle_arrival page.targetTemp page.currentTemp
  obtain ⟨humi, hhumi⟩ := exists_needle_arrival page.targetHumi page.currentHumi
  exact ⟨max temp humi, fun k => ((htemp k).and (hhumi k)).trans max_le_iff.symm⟩

variable {page page₁ page₂ : OverviewPage ℚ} {arrival k : ℕ}

theorem ticked_zero (hactive : page.timerActive = true) : Ticked page arrival 0 page :=
  ⟨rfl, rfl, rfl, rfl, Nat.zero_le _, iff_of_true hactive (Nat.succ_pos arrival)⟩

/-- A needle is at its target just when it has arrived. -/
theorem Ticked.arrived_iff (h : Ticked page arrival k page₁) (harrive : page.ArriveAt arrival) :
    page₁.currentTemp = page₁.targetTemp ∧ page₁.currentHumi = page₁.targetHumi ↔
      arrival ≤ k := by
  rw [h.currentTemp, h.currentHumi, h.targetTemp, h.targetHumi]
  exact harrive k

/-- One tick more. -/
theorem Ticked.tick (h : Ticked page arrival k page₁) (harrive : page.ArriveAt arrival)
    (hactive : page₁.timerActive = true) : Ticked page arrival (k + 1) page₁.tick where
  targetTemp := h.targetTemp
  targetHumi := h.targetHumi
  currentTemp := by
    rw [tick_currentTemp, h.targetTemp, h.currentTemp, Function.iterate_succ_apply']
  currentHumi := by
    rw [tick_currentHumi, h.targetHumi, h.currentHumi, Function.iterate_succ_apply']
  le := h.active_iff.mp hactive
  active_iff := by
    rw [tick_timerActive, and_iff_right hactive, h.arrived_iff harrive, not_le,
      Nat.add_lt_add_iff_right]

/-- One event more. -/
theorem Ticked.step (h : Ticked page arrival k page₁) (harrive : page.ArriveAt arrival)
    {event : OverviewEvent ℚ} (hkeeps : event.keepsTargets = true)
    (hs : page₁.step event = some page₂) :
    Ticked page arrival (k + if event.isTick then 1 else 0) page₂ := by
  cases event with
  | packet => cases hkeeps
  | connection => cases hkeeps
  | thresholds tempMax humiMax =>
      cases hs
      exact ⟨h.targetTemp, h.targetHumi, h.currentTemp, h.currentHumi, h.le, h.active_iff⟩
  | tick =>
      rw [OverviewPage.step] at hs
      split at hs
      next hactive =>
        cases hs
        exact h.tick harrive hactive
      next => cases hs

/-- The events of a run. -/
theorem Ticked.runFrom (h : Ticked page arrival k page₁) (harrive : page.ArriveAt arrival)
    {events : List (OverviewEvent ℚ)} (hkeeps : ∀ event ∈ events, event.keepsTargets = true)
    (hrun : (machine ℚ).runFrom page₁ events = some page₂) :
    Ticked page arrival (k + events.countP OverviewEvent.isTick) page₂ := by
  induction events generalizing k page₁ with
  | nil =>
      cases hrun
      exact h
  | cons event events ih =>
      obtain ⟨hevent, hevents⟩ := List.forall_mem_cons.mp hkeeps
      obtain ⟨page', hs, hrest⟩ := Machine.runFrom_cons_eq_some.mp hrun
      rw [List.countP_cons, Nat.add_comm (events.countP _), ← Nat.add_assoc]
      exact ih (h.step harrive hevent hs) hevents hrest

/-- The timer ticks until the needles have arrived, and once more. -/
theorem Ticked.exists_run (h : Ticked page arrival k page₁) (harrive : page.ArriveAt arrival)
    {ticks : ℕ} (hticks : k + ticks ≤ arrival + 1) :
    ∃ page₂, (machine ℚ).runFrom page₁ (List.replicate ticks .tick) = some page₂ := by
  induction ticks generalizing k page₁ with
  | zero => exact ⟨page₁, rfl⟩
  | succ ticks ih =>
      have hactive : page₁.timerActive = true := h.active_iff.mpr (by omega)
      obtain ⟨page₂, hrun⟩ := ih (h.tick harrive hactive) (by omega)
      exact ⟨page₂, Machine.runFrom_cons_eq_some.mpr ⟨page₁.tick, if_pos hactive, hrun⟩⟩

/-- Both needles are at their targets, and the timer has stopped. -/
structure Settled (page : OverviewPage ℚ) : Prop where
  temp : page.currentTemp = page.targetTemp
  humi : page.currentHumi = page.targetHumi
  stopped : page.timerActive = false

/-- While neither a packet nor a change of the connection comes, the timer ticks a certain number
of times.  Then both needles are at their targets, which no event has changed, and the timer has
stopped.  With every tick the needles come closer to their targets, and are painted. -/
theorem gauge_settles {page : OverviewPage ℚ} (hactive : page.timerActive = true) :
    (∃ ticks, (∃ page', (machine ℚ).runFrom page (List.replicate ticks .tick) = some page') ∧
      ∀ events page', (∀ event ∈ events, event.keepsTargets = true) →
        (machine ℚ).runFrom page events = some page' →
          (page'.targetTemp = page.targetTemp ∧ page'.targetHumi = page.targetHumi) ∧
          events.countP OverviewEvent.isTick ≤ ticks ∧
          (page'.timerActive = true ↔ events.countP OverviewEvent.isTick < ticks) ∧
          (events.countP OverviewEvent.isTick = ticks → Settled page')) ∧
    ∀ page₁ page₂ : OverviewPage ℚ, page₁.step .tick = some page₂ → Animates page₁ page₂ := by
  constructor
  · obtain ⟨arrival, harrive⟩ := page.exists_arriveAt
    have hstart : Ticked page arrival 0 page := ticked_zero hactive
    refine ⟨arrival + 1, hstart.exists_run harrive (Nat.le_of_eq (Nat.zero_add _)), ?_⟩
    intro events page' hkeeps hrun
    have hticked := hstart.runFrom harrive hkeeps hrun
    rw [Nat.zero_add] at hticked
    refine ⟨⟨hticked.targetTemp, hticked.targetHumi⟩, hticked.le, hticked.active_iff, ?_⟩
    intro hlast
    obtain ⟨htemp, hhumi⟩ := (hticked.arrived_iff harrive).mpr (by omega)
    refine ⟨htemp, hhumi, Bool.eq_false_iff.mpr fun hstill => ?_⟩
    exact (hticked.active_iff.mp hstill).ne hlast
  · intro page₁ page₂ hs
    rw [OverviewPage.step] at hs
    split at hs
    next =>
      cases hs
      exact animates_tick page₁
    next => cases hs

/-- The needles move from 0 to 20 degrees and 50 percent. -/
theorem gauge_settles_reading : ∃ ticks page',
    (machine ℚ).runFrom (init.updateSensorData ⟨1, 20, 50, 100⟩) (List.replicate ticks .tick) =
      some page' ∧ page'.currentTemp = 20 ∧ page'.currentHumi = 50 ∧ page'.timerActive = false := by
  obtain ⟨⟨ticks, ⟨page', hrun⟩, hsettles⟩, -⟩ :=
    @gauge_settles (init.updateSensorData ⟨1, 20, 50, 100⟩) rfl
  have hkeeps : ∀ event ∈ List.replicate ticks (OverviewEvent.tick (α := ℚ)),
      event.keepsTargets = true := fun event hevent => by
    rw [List.eq_of_mem_replicate hevent]
    rfl
  have hcount : (List.replicate ticks (OverviewEvent.tick (α := ℚ))).countP OverviewEvent.isTick =
      ticks := by
    simp [List.countP_replicate, OverviewEvent.isTick]
  obtain ⟨⟨htemp, hhumi⟩, -, -, hlast⟩ := hsettles _ page' hkeeps hrun
  have hsettled := hlast hcount
  exact ⟨ticks, page', hrun, hsettled.temp.trans htemp, hsettled.humi.trans hhumi, hsettled.stopped⟩

end OverviewPage

end IotEdge.Monitor
