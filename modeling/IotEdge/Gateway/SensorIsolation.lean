import IotEdge.Gateway.Blackboard

/-!
# Other sensors

An update of one sensor should not show in what is read for another.  For the id `0`, which
also marks the free slots, a read returns what the first free slot holds.  The next sensor
that is new takes this slot, and the value of the sensor `0` is gone.

`read_update_iff` is the exact condition.  It rests on what free slots hold: all but the
first are as `memset` left them (`Clean`).
-/

namespace IotEdge

namespace Blackboard

/-- A free slot behind another one holds zeros. -/
def Clean (b : Blackboard) : Prop :=
  b.slots.Pairwise fun slot slot' => slot.sensorId = 0 → slot'.sensorId = 0 → slot'.latestData = ⟨0⟩

theorem clean_zeroed : zeroed.Clean :=
  List.pairwise_replicate.mpr (.inr fun _ _ => rfl)

/-- Updates keep the free slots clean. -/
theorem Clean.update {b : Blackboard} (h : b.Clean) (sensorId : UInt32) (data : Double)
    (now : Int64) : (b.updateSharedSensorData sensorId data now).Clean := by
  have hupdated := b.updated sensorId data now
  generalize b.updateSharedSensorData sensorId data now = b' at hupdated
  cases hupdated with
  | full _ _ hsame => rwa [hsame]
  | found hslots hid hbefore hnew =>
      rw [Clean, hslots, List.pairwise_append, List.pairwise_cons] at h
      obtain ⟨hfront, ⟨hslot, hback⟩, hacross⟩ := h
      rw [Clean, hnew, List.pairwise_append, List.pairwise_cons]
      refine ⟨hfront, ⟨fun t ht hfree => hslot t ht (hid.trans hfree), hback⟩, ?_⟩
      intro s hs t ht hfree hfree'
      rcases List.mem_cons.mp ht with rfl | ht
      · exact absurd (hfree.trans hfree'.symm) (hbefore s hs)
      · exact hacross s hs t (List.mem_cons_of_mem _ ht) hfree hfree'
  | taken hslots _ hid hbefore hnew =>
      rw [Clean, hslots, List.pairwise_append, List.pairwise_cons] at h
      obtain ⟨hfront, ⟨hslot, hback⟩, -⟩ := h
      rw [Clean, hnew, List.pairwise_append, List.pairwise_cons]
      refine ⟨hfront, ⟨fun t ht _ => hslot t ht hid, hback⟩, ?_⟩
      intro s hs t _ hfree
      exact absurd hfree (hbefore s hs)

theorem clean_updateAll (updates : List Update) : (zeroed.updateAll updates).Clean := by
  induction updates using List.reverseRecOn with
  | nil => exact clean_zeroed
  | append_singleton updates u ih =>
      rw [updateAll, List.foldl_append]
      exact ih.update u.sensorId u.data u.now

/-- The value in the first free slot. -/
def freeData (b : Blackboard) : Option Double :=
  (b.slots.find? fun slot => slot.sensorId = 0).map SharedSensorState.latestData

/-- If the update gives the first free slot away, then the slot holds what is read for `0`
afterwards: 0.0, or -999.0 when no other slot is free. -/
def LeavesFree (b : Blackboard) (sensorId other : UInt32) : Prop :=
  other = 0 → sensorId ∉ b.ids → ∀ data ∈ b.freeData,
    data = if b.ids.count 0 = 1 then invalidData else ⟨0⟩

instance (b : Blackboard) (sensorId other : UInt32) : Decidable (b.LeavesFree sensorId other) :=
  inferInstanceAs (Decidable (_ → _ → ∀ _ ∈ _, _))

/-- What is read for `0` from clean slots. -/
theorem readFrom_zero {slots : List SharedSensorState}
    (h : ∀ slot ∈ slots, slot.sensorId = 0 → slot.latestData = ⟨0⟩) :
    readFrom 0 slots =
      if (slots.map SharedSensorState.sensorId).count 0 = 0 then invalidData else ⟨0⟩ := by
  induction slots with
  | nil => rfl
  | cons slot slots ih =>
      obtain ⟨hslot, hslots⟩ := List.forall_mem_cons.mp h
      rw [readFrom, List.map_cons]
      split
      next hfree =>
        rw [hslot hfree, hfree, List.count_cons_self, if_neg (Nat.succ_ne_zero _)]
      next hused =>
        rw [ih hslots, List.count_cons_of_ne hused]

/-- The update gives the first free slot away. -/
theorem read_zero_taken {b b' : Blackboard} (h : b.Clean) {before after : List SharedSensorState}
    {slot entry : SharedSensorState} (hslots : b.slots = before ++ slot :: after)
    (hid : slot.sensorId = 0) (hbefore : ∀ s ∈ before, s.sensorId ≠ 0)
    (hentry : entry.sensorId ≠ 0) (hnew : b'.slots = before ++ entry :: after) :
    b.freeData = some slot.latestData ∧ b.readSharedSensorData 0 = slot.latestData ∧
      b'.readSharedSensorData 0 = if b.ids.count 0 = 1 then invalidData else ⟨0⟩ := by
  have hnone : (before.map SharedSensorState.sensorId).count 0 = 0 := by
    rw [List.count_eq_zero]
    simpa using hbefore
  rw [Clean, hslots, List.pairwise_append, List.pairwise_cons] at h
  obtain ⟨-, ⟨hclean, -⟩, -⟩ := h
  refine ⟨?_, ?_, ?_⟩
  · rw [freeData, hslots, List.find?_append, List.find?_eq_none.mpr (by simpa using hbefore),
      List.find?_cons_of_pos (by simpa using hid)]
    rfl
  · rw [readSharedSensorData, hslots, readFrom_append hbefore, readFrom, if_pos hid]
  · rw [readSharedSensorData, hnew, readFrom_append hbefore, readFrom, if_neg hentry,
      readFrom_zero fun t ht => hclean t ht hid, ids, hslots, List.map_append, List.count_append,
      hnone, List.map_cons, hid, List.count_cons_self]
    simp

/-- In every table that updates lead to, an update of one sensor leaves what is read for
another, just when it is not the sensor `0` whose slot is given away. -/
theorem read_update_iff (updates : List Update) {sensorId other : UInt32} (hne : sensorId ≠ other)
    (data : Double) (now : Int64) :
    ((zeroed.updateAll updates).updateSharedSensorData sensorId data now).readSharedSensorData
        other = (zeroed.updateAll updates).readSharedSensorData other ↔
      (zeroed.updateAll updates).LeavesFree sensorId other := by
  have hclean := clean_updateAll updates
  generalize zeroed.updateAll updates = b at hclean
  rcases eq_or_ne other 0 with rfl | hother
  · have hupdated := b.updated sensorId data now
    generalize b.updateSharedSensorData sensorId data now = b' at hupdated
    cases hupdated with
    | found hslots hid _ hnew =>
        refine iff_of_true ?_ fun _ habsent => ?_
        · rw [readSharedSensorData, readSharedSensorData, hnew, hslots, readFrom_middle hne,
            readFrom_middle (hid ▸ hne)]
        · exact absurd hid (not_mem_ids.mp habsent _ (by rw [hslots]; simp))
    | taken hslots habsent hid hbefore hnew =>
        obtain ⟨hfree, hread, hread'⟩ := read_zero_taken hclean hslots hid hbefore hne hnew
        rw [hread, hread', LeavesFree, hfree]
        constructor
        · intro hsame _ _ data' hdata
          cases hdata
          exact hsame.symm
        · exact fun hleaves => (hleaves rfl habsent _ rfl).symm
    | full _ hused hsame =>
        refine iff_of_true (by rw [hsame]) fun _ _ data' hdata => ?_
        have hnone : b.freeData = none := by
          rw [freeData, List.find?_eq_none.mpr (by simpa using not_mem_ids.mp hused)]
          rfl
        rw [hnone] at hdata
        cases hdata
  · exact iff_of_true (read_update_of_ne hne.symm hother data now) fun h => absurd h hother

/-- A new sensor, and one that has a slot. -/
theorem read_update_iff_new :
    ((zeroed.updateAll [⟨1, ⟨0x4014000000000000⟩, 100⟩]).updateSharedSensorData 2
      ⟨0x401C000000000000⟩ 101).readSharedSensorData 1 =
        (zeroed.updateAll [⟨1, ⟨0x4014000000000000⟩, 100⟩]).readSharedSensorData 1 :=
  (read_update_iff [⟨1, ⟨0x4014000000000000⟩, 100⟩] (by decide) _ _).mpr
    fun hzero => absurd hzero (by decide)

/-- The sensor `0` has reported 5.0.  When the sensor 1 reports for the first time, it is
read as 0.0. -/
theorem sensor_zero_lost : ¬ ∀ (updates : List Update) (sensorId other : UInt32),
    sensorId ≠ other → ∀ data now,
      ((zeroed.updateAll updates).updateSharedSensorData sensorId data now).readSharedSensorData
        other = (zeroed.updateAll updates).readSharedSensorData other := by
  intro h
  have hread := h [⟨0, ⟨0x4014000000000000⟩, 100⟩] 1 0 (by decide) ⟨0x401C000000000000⟩ 101
  revert hread
  decide

end Blackboard

end IotEdge
