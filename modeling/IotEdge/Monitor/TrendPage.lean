import IotEdge.Lib.SlidingWindow
import IotEdge.Monitor.SensorCache

/-!
# The trend page

`TrendPage` keeps the readings of the chart in three buffers, one for the times and one for each
value.  With every packet the buffers grow at the end and are trimmed at the front, first by the
time and then by the number.  When the connection is lost they are cleared, and the next reading
is the origin of the times.

The buffers hold the sliding window over the readings since then (`trend_window`).
-/

namespace IotEdge.Monitor

open SlidingWindow (IsWindow)

/-! ## The source -/

/-- The buffers of `TrendPage`. -/
structure TrendPage (α : Type) where
  /-- `m_bufSecAbs`: whole seconds, which are exact in a `qreal`. -/
  bufSecAbs : List Int
  bufTemp : List α
  bufHumi : List α
  startTimestamp : Int
  deriving DecidableEq

/-- `CHART_MAX`. -/
def chartMax : Nat := 300

/-- `X_WINDOW`. -/
def xWindow : Int := 60

/-- A packet, and the clock when it came. -/
structure Reading (α : Type) where
  nowSec : Int
  packet : DeviceDataPacket α

namespace TrendPage

variable {α : Type}

/-- The page when it is made. -/
def init : TrendPage α := ⟨[], [], [], 0⟩

/-- `removeFirst` on the three buffers. -/
def removeFirst (page : TrendPage α) : TrendPage α :=
  { page with
    bufSecAbs := page.bufSecAbs.tail
    bufTemp := page.bufTemp.tail
    bufHumi := page.bufHumi.tail }

/-- The loop that drops what is too old. -/
def dropOld (absSec : Int) (page : TrendPage α) : TrendPage α :=
  match _ : page.bufSecAbs with
  | [] => page
  | first :: _ => if absSec - first > xWindow then dropOld absSec page.removeFirst else page
termination_by page.bufSecAbs.length
decreasing_by
  rename_i hcons _
  rw [removeFirst, hcons]
  exact Nat.lt_succ_self _

/-- The loop that drops what is too much. -/
def dropMany (page : TrendPage α) : TrendPage α :=
  if page.bufSecAbs.length > chartMax then dropMany page.removeFirst else page
termination_by page.bufSecAbs.length
decreasing_by
  rw [removeFirst, List.length_tail]
  omega

/-- `TrendPage::updateSensorData`. -/
def updateSensorData (page : TrendPage α) (reading : Reading α) : TrendPage α :=
  let start := if page.startTimestamp = 0 then reading.nowSec else page.startTimestamp
  let absSec := reading.nowSec - start
  let page : TrendPage α :=
    { bufSecAbs := page.bufSecAbs ++ [absSec]
      bufTemp := page.bufTemp ++ [reading.packet.temperature]
      bufHumi := page.bufHumi ++ [reading.packet.humidity]
      startTimestamp := start }
  (page.dropOld absSec).dropMany

/-- `TrendPage::updateConnectionStatus`. -/
def updateConnectionStatus (page : TrendPage α) (connected : Bool) : TrendPage α :=
  if ¬connected then init else page

/-- What the page is called for. -/
inductive Event (α : Type) where
  | packet (reading : Reading α)
  | connection (connected : Bool)

/-- The slot of an event. -/
def handle (page : TrendPage α) : Event α → TrendPage α
  | .packet reading => page.updateSensorData reading
  | .connection connected => page.updateConnectionStatus connected

/-- The page behind some events. -/
def run (events : List (Event α)) : TrendPage α := events.foldl handle init

/-! ## The readings -/

/-- The readings since the last disconnect. -/
def receive (readings : List (Reading α)) : Event α → List (Reading α)
  | .packet reading => readings ++ [reading]
  | .connection connected => if ¬connected then [] else readings

def received (events : List (Event α)) : List (Reading α) := events.foldl receive []

/-- The reading of a packet. -/
def Event.reading? : Event α → Option (Reading α)
  | .packet reading => some reading
  | .connection _ => none

/-- The clock at every packet. -/
def clocks (events : List (Event α)) : List Int :=
  (events.filterMap Event.reading?).map Reading.nowSec

/-- The buffers hold some readings, index by index, with their times since the first reading that
there was. -/
structure Holds (page : TrendPage α) (readings kept : List (Reading α)) : Prop where
  bufTemp : page.bufTemp = kept.map fun r => r.packet.temperature
  bufHumi : page.bufHumi = kept.map fun r => r.packet.humidity
  length_bufSecAbs : page.bufSecAbs.length = kept.length
  bufSecAbs : ∀ first ∈ readings.head?, page.bufSecAbs = kept.map fun r => r.nowSec - first.nowSec
  /-- The times do not go back. -/
  sorted : page.bufSecAbs.Pairwise (· ≤ ·)

/-! ## The loops -/

/-- The page that holds some readings. -/
def ofReadings (start : Int) (kept : List (Reading α)) : TrendPage α :=
  ⟨kept.map fun r => r.nowSec - start, kept.map fun r => r.packet.temperature,
    kept.map fun r => r.packet.humidity, start⟩

theorem dropOld_cons {absSec first : Int} {rest : List Int} {page : TrendPage α}
    (h : page.bufSecAbs = first :: rest) : page.dropOld absSec =
      if xWindow < absSec - first then page.removeFirst.dropOld absSec else page := by
  rw [dropOld]
  split
  next hnil =>
    rw [h] at hnil
    cases hnil
  next first' rest' hcons =>
    rw [h] at hcons
    cases hcons
    rfl

theorem dropOld_ofReadings (nowSec start : Int) (kept : List (Reading α)) :
    (ofReadings start kept).dropOld (nowSec - start) =
      ofReadings start (kept.dropWhile fun r => xWindow < nowSec - r.nowSec) := by
  induction kept with
  | nil =>
      rw [dropOld]
      rfl
  | cons r kept ih =>
      have hcons : (ofReadings start (r :: kept)).bufSecAbs =
          (r.nowSec - start) :: kept.map fun r => r.nowSec - start := rfl
      have hsec : nowSec - start - (r.nowSec - start) = nowSec - r.nowSec := by omega
      rw [dropOld_cons hcons, hsec, List.dropWhile_cons]
      by_cases hold : xWindow < nowSec - r.nowSec
      · rw [if_pos hold, if_pos (decide_eq_true hold)]
        exact ih
      · rw [if_neg hold, if_neg (by simpa using hold)]

theorem dropMany_ofReadings (start : Int) (kept : List (Reading α)) :
    (ofReadings start kept).dropMany = ofReadings start (kept.drop (kept.length - chartMax)) := by
  have hlength (kept : List (Reading α)) :
      (ofReadings start kept).bufSecAbs.length = kept.length := List.length_map _
  induction kept with
  | nil =>
      rw [dropMany, hlength, List.length_nil, if_neg (Nat.not_lt_zero _)]
      rfl
  | cons r kept ih =>
      rw [dropMany, hlength, List.length_cons]
      split
      next hlt =>
        rw [show kept.length + 1 - chartMax = kept.length - chartMax + 1 by omega,
          List.drop_succ_cons]
        exact ih
      next hle =>
        rw [show kept.length + 1 - chartMax = 0 by omega, List.drop_zero]

/-- The window over the readings. -/
abbrev Window (readings kept : List (Reading α)) : Prop :=
  IsWindow Reading.nowSec chartMax xWindow readings kept

/-- A packet pushes its reading into the window. -/
theorem updateSensorData_ofReadings {start : Int} {kept : List (Reading α)}
    (hstart : start = 0 → kept = []) (r : Reading α) :
    (ofReadings start kept).updateSensorData r =
      ofReadings (if start = 0 then r.nowSec else start)
        (SlidingWindow.push Reading.nowSec chartMax xWindow kept r) := by
  have happend : ∀ start', (start ≠ start' → kept = []) →
      (⟨(ofReadings start kept).bufSecAbs ++ [r.nowSec - start'],
        (ofReadings start kept).bufTemp ++ [r.packet.temperature],
        (ofReadings start kept).bufHumi ++ [r.packet.humidity], start'⟩ : TrendPage α) =
          ofReadings start' (kept ++ [r]) := by
    intro start' hsame
    rcases eq_or_ne start start' with rfl | hne
    · simp only [ofReadings, List.map_append, List.map_singleton]
    · rw [hsame hne]
      rfl
  have hsame : start ≠ (if start = 0 then r.nowSec else start) → kept = [] := by
    intro hne
    split at hne
    next hzero => exact hstart hzero
    next => exact absurd rfl hne
  rw [updateSensorData, SlidingWindow.push, ← dropMany_ofReadings, ← dropOld_ofReadings,
    ← happend _ hsame]
  rfl

/-! ## Runs -/

/-- The origin of the times. -/
def origin (readings : List (Reading α)) : Int := (readings.head?.map Reading.nowSec).getD 0

theorem run_concat (events : List (Event α)) (e : Event α) :
    run (events ++ [e]) = (run events).handle e := List.foldl_append

theorem received_concat (events : List (Event α)) (e : Event α) :
    received (events ++ [e]) = receive (received events) e := List.foldl_append

/-- The readings since a disconnect are the last ones. -/
theorem received_suffix (events : List (Event α)) :
    received events <:+ events.filterMap Event.reading? := by
  induction events using List.reverseRecOn with
  | nil => exact List.suffix_refl []
  | append_singleton events e ih =>
      rw [received_concat, List.filterMap_append]
      cases e with
      | packet reading =>
          obtain ⟨before, hsplit⟩ := ih
          exact ⟨before, by rw [← hsplit, List.append_assoc]; rfl⟩
      | connection connected =>
          rw [receive]
          split
          next => exact List.nil_suffix
          next =>
            rwa [show [Event.connection connected].filterMap Event.reading? = [] from rfl,
              List.append_nil]

/-- The clock is positive, so a page without an origin has no readings. -/
theorem received_eq_nil {events : List (Event α)} (hpositive : ∀ now ∈ clocks events, 0 < now)
    (h : origin (received events) = 0) : received events = [] := by
  have hsuffix := received_suffix events
  cases hreceived : received events with
  | nil => rfl
  | cons first readings =>
      rw [hreceived] at h hsuffix
      have hmem := List.mem_map_of_mem (f := Reading.nowSec) (hsuffix.subset List.mem_cons_self)
      exact absurd h (hpositive first.nowSec hmem).ne'

/-- The first reading sets the origin. -/
theorem origin_concat {readings : List (Reading α)} (h : origin readings = 0 → readings = [])
    (r : Reading α) :
    origin (readings ++ [r]) = if origin readings = 0 then r.nowSec else origin readings := by
  split
  next hzero =>
    rw [h hzero]
    rfl
  next hstart =>
    cases readings with
    | nil => exact absurd rfl hstart
    | cons first readings => rfl

/-- An event moves the window on. -/
theorem handle_ofReadings {readings kept : List (Reading α)} (hwindow : Window readings kept)
    (horigin : origin readings = 0 → readings = []) (e : Event α)
    (hsorted : (receive readings e).Pairwise fun a b => a.nowSec ≤ b.nowSec) :
    ∃ kept', Window (receive readings e) kept' ∧
      (ofReadings (origin readings) kept).handle e =
        ofReadings (origin (receive readings e)) kept' := by
  cases e with
  | packet r =>
      have hkept : origin readings = 0 → kept = [] := fun hzero => by
        have hsuffix := hwindow.suffix
        rw [horigin hzero] at hsuffix
        exact List.suffix_nil.mp hsuffix
      refine ⟨_, hwindow.push hsorted, ?_⟩
      rw [handle, updateSensorData_ofReadings hkept, receive, origin_concat horigin]
  | connection connected =>
      rw [handle, updateConnectionStatus, receive]
      split
      next => exact ⟨[], SlidingWindow.isWindow_nil, rfl⟩
      next => exact ⟨kept, hwindow, rfl⟩

/-- The page holds the window over the readings. -/
theorem exists_window {events : List (Event α)} (hpositive : ∀ now ∈ clocks events, 0 < now)
    (hsorted : (clocks events).Pairwise (· ≤ ·)) :
    ∃ kept, Window (received events) kept ∧
      run events = ofReadings (origin (received events)) kept := by
  induction events using List.reverseRecOn with
  | nil => exact ⟨[], SlidingWindow.isWindow_nil, rfl⟩
  | append_singleton events e ih =>
      have hclocks : clocks (events ++ [e]) = clocks events ++ clocks [e] := by
        rw [clocks, List.filterMap_append, List.map_append]
        rfl
      have hbefore : ∀ now ∈ clocks events, 0 < now := fun now hnow =>
        hpositive now (by rw [hclocks]; exact List.mem_append_left _ hnow)
      have hreadings : (receive (received events) e).Pairwise fun a b => a.nowSec ≤ b.nowSec := by
        have hsuffix := received_suffix (events ++ [e])
        rw [received_concat] at hsuffix
        exact (List.pairwise_map.mp hsorted).sublist hsuffix.sublist
      rw [hclocks] at hsorted
      obtain ⟨kept, hwindow, hrun⟩ := ih hbefore (List.pairwise_append.mp hsorted).1
      rw [run_concat, received_concat, hrun]
      exact handle_ofReadings hwindow (received_eq_nil hbefore) e hreadings

/-- After every event the buffers hold the sliding window over the readings since the last
disconnect. -/
theorem trend_window {events : List (Event α)} (hpositive : ∀ now ∈ clocks events, 0 < now)
    (hsorted : (clocks events).Pairwise (· ≤ ·)) :
    ∃ kept, Window (received events) kept ∧ (run events).Holds (received events) kept := by
  obtain ⟨kept, hwindow, hrun⟩ := exists_window hpositive hsorted
  have hkept : kept.Pairwise fun a b => a.nowSec ≤ b.nowSec :=
    (List.pairwise_map.mp hsorted).sublist (hwindow.suffix.trans (received_suffix events)).sublist
  refine ⟨kept, hwindow, ?_⟩
  rw [hrun]
  refine ⟨rfl, rfl, List.length_map _, fun first hfirst => ?_, ?_⟩
  · rw [origin, hfirst]
    rfl
  · exact List.pairwise_map.mpr (hkept.imp fun hle => Int.sub_le_sub_right hle _)

/-- A disconnect, and a reading that gets too old. -/
theorem trend_window_reconnect :
    let packet : DeviceDataPacket Nat := ⟨1, 20, 50, 0⟩
    let events : List (Event Nat) := [.packet ⟨3, packet⟩, .connection false, .packet ⟨5, packet⟩,
      .packet ⟨9, packet⟩, .packet ⟨66, packet⟩]
    ∃ kept, Window (received events) kept ∧ (run events).Holds (received events) kept :=
  trend_window (by decide) (by decide)

end TrendPage

end IotEdge.Monitor
