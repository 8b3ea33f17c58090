import IotEdge.Monitor.OverviewPage

/-!
# The timer of the gauges

The timer that moves the needles is started by a packet, and stops when both needles are at their
targets.  A lost connection sets the targets back to 0 and does not start the timer.

So the needles stay where they are when the connection is lost after they have settled
(`gauge_moves_iff`).
-/

namespace IotEdge.Monitor.OverviewPage

variable {α : Type} [BEq α]

/-- While a needle is not at its target the timer is active. -/
def Moves (page : OverviewPage α) : Prop :=
  (page.currentTemp != page.targetTemp || page.currentHumi != page.targetHumi) = true →
    page.timerActive = true

variable [OfScientific α]

/-- The connection is not lost while the timer has stopped, unless the needles are at 0. -/
def LostInTime (page : OverviewPage α) (event : OverviewEvent α) : Prop :=
  event = .connection false →
    page.timerActive = true ∨ (page.currentTemp == 0.0 && page.currentHumi == 0.0) = true

/-- The targets go back to 0, and the timer stays as it is. -/
theorem moves_updateConnectionStatus (page : OverviewPage α) :
    Moves (page.updateConnectionStatus false) ↔ LostInTime page (.connection false) := by
  have hmoves : Moves (page.updateConnectionStatus false) ↔
      ((page.currentTemp != 0.0 || page.currentHumi != 0.0) = true → page.timerActive = true) :=
    Iff.rfl
  rw [hmoves, LostInTime, bne, bne, ← Bool.not_and, Bool.not_eq_true']
  generalize (page.currentTemp == 0.0 && page.currentHumi == 0.0) = atZero
  cases atZero with
  | true => simp
  | false => simp

variable [Add α] [Sub α] [Mul α] [Neg α] [LT α] [DecidableLT α] [LE α] [DecidableLE α]

/-- The timer stops only when both needles are at their targets. -/
theorem moves_tick {page : OverviewPage α} (h : page.timerActive = true) : Moves page.tick := by
  intro hmoves
  rw [tick] at hmoves ⊢
  dsimp only at hmoves ⊢
  rw [bne, bne, ← Bool.not_and] at hmoves
  rw [h, Bool.true_and, Bool.and_assoc, Bool.not_and, hmoves, Bool.or_true]

/-- An event keeps the timer active just when it is no connection lost too late. -/
theorem step_moves_iff {page page' : OverviewPage α} {event : OverviewEvent α}
    (h : Moves page) (hs : page.step event = some page') :
    Moves page' ↔ LostInTime page event := by
  cases event with
  | packet packet =>
      cases hs
      exact iff_of_true (fun _ => rfl) fun hevent => by cases hevent
  | connection connected =>
      cases hs
      cases connected with
      | false => exact moves_updateConnectionStatus page
      | true => exact iff_of_true h fun hevent => by cases hevent
  | thresholds tempMax humiMax =>
      cases hs
      exact iff_of_true h fun hevent => by cases hevent
  | tick =>
      rw [step] at hs
      split at hs
      next hactive =>
        cases hs
        exact iff_of_true (moves_tick hactive) fun hevent => by cases hevent
      next => cases hs

/-- Along any run, a needle that is not at its target has the timer active, just when at each lost
connection the timer is active or both needles are at 0. -/
theorem gauge_moves_iff {events : List (OverviewEvent Float)} {page : OverviewPage Float}
    (hrun : (machine Float).run events = some page) :
    (machine Float).Always events Moves ↔ (machine Float).EachStep events LostInTime :=
  Machine.always_iff_eachStep (fun h => absurd h (by decide)) (fun _ h hs => step_moves_iff h hs)
    hrun

/-- The connection is lost right behind a reading. -/
theorem gauge_moves_iff_in_time :
    (machine Float).Always [.packet ⟨1, 20.0, 50.0, 100⟩, .connection false] Moves := by
  have hrun : ∃ page, (machine Float).run [.packet ⟨1, 20.0, 50.0, 100⟩, .connection false] =
      some page := ⟨_, rfl⟩
  have hpacket : ∃ page, (machine Float).run [.packet ⟨1, 20.0, 50.0, 100⟩] = some page ∧
      page.timerActive = true := ⟨_, rfl, rfl⟩
  obtain ⟨page, hpage⟩ := hrun
  obtain ⟨page', hpage', hactive⟩ := hpacket
  have hfirst : (machine Float).EachStep ([] ++ [.packet ⟨1, 20.0, 50.0, 100⟩]) LostInTime :=
    (Machine.eachStep_concat rfl).mpr ⟨Machine.eachStep_nil, fun hevent => by cases hevent⟩
  exact (gauge_moves_iff hpage).mpr
    ((Machine.eachStep_concat hpage').mpr ⟨hfirst, fun _ => .inl hactive⟩)

/-- The needle has settled at 0.04 degrees when the connection is lost. -/
theorem gauge_frozen : ¬ ∀ page, (machine Float).Reachable page → Moves page := by
  intro h
  have hrun : ∃ page, (machine Float).run [.packet ⟨1, 0.04, 0.0, 100⟩, .tick, .tick,
      .connection false] = some page ∧ page.timerActive = false ∧
        (page.currentTemp != page.targetTemp) = true := ⟨_, rfl, rfl, rfl⟩
  obtain ⟨page, hpage, hstopped, hmoved⟩ := hrun
  have hactive := h page (.of_run hpage) (by rw [hmoved, Bool.true_or])
  rw [hstopped] at hactive
  cases hactive

end IotEdge.Monitor.OverviewPage
