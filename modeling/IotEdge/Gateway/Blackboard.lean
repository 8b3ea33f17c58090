import IotEdge.Lib.BoundedMap
import IotEdge.Gateway.DataQueue

/-!
# The shared-memory blackboard

`ipc_modules.c` keeps the latest value of up to `MAX_SENSORS` sensors in a table
in shared memory.  A slot with the id `0` is free.  An update scans the table for
the id and, in the same pass, for the first free slot.  It writes where it found
the id, else into the free slot, else nowhere.

The id `0` is not refused.  An update with it finds the first free slot and
writes the value there, and the slot stays free.

The table refines a bounded map (`Represents`): its ids are the keys in the order
they came, then zeros.  `main` leaves when the table cannot be attached, and
`init_system_v_ipc` clears it, so every run starts from `Blackboard.zeroed`.
-/

namespace IotEdge

/-- `MAX_SENSORS`. -/
abbrev maxSensors : Nat := 100

/-- `SharedSensorState`: a slot. -/
structure SharedSensorState where
  /-- `sensor_id`.  `0` when the slot is free. -/
  sensorId : UInt32
  latestData : Double
  updateTime : Int64
deriving DecidableEq

/-- `-999.0`, what a read returns when it does not find the id. -/
def invalidData : Double := ⟨0xC08F380000000000⟩

/-- `shared_mem`. -/
structure Blackboard where
  /-- The slots. -/
  slots : List SharedSensorState
  /-- There are `MAX_SENSORS` of them. -/
  length_slots : slots.length = maxSensors

namespace Blackboard

/-- The cleared table. -/
def zeroed : Blackboard where
  slots := List.replicate maxSensors ⟨0, ⟨0⟩, 0⟩
  length_slots := List.length_replicate

/-- The loop of `update_shared_sensor_data` from slot `i` on: `target_idx` and
`empty_idx` after it. -/
def scan (sensorId : UInt32) :
    List SharedSensorState → Nat → Option Nat → Option Nat × Option Nat
  | [], _, emptyIdx => (none, emptyIdx)
  | slot :: slots, i, emptyIdx =>
      if slot.sensorId = sensorId then (some i, emptyIdx)
      else if slot.sensorId = 0 ∧ emptyIdx = none then scan sensorId slots (i + 1) (some i)
      else scan sensorId slots (i + 1) emptyIdx

/-- `update_shared_sensor_data`, called at time `now`. -/
def updateSharedSensorData (b : Blackboard) (sensorId : UInt32) (data : Double) (now : Int64) :
    Blackboard :=
  match scan sensorId b.slots 0 none with
  | (targetIdx, emptyIdx) =>
      match targetIdx.or emptyIdx with
      | some writeIdx =>
          { slots := b.slots.set writeIdx ⟨sensorId, data, now⟩
            length_slots := by rw [List.length_set, b.length_slots] }
      | none => b

/-- The loop of `read_shared_sensor_data` over the remaining slots. -/
def readFrom (sensorId : UInt32) : List SharedSensorState → Double
  | [] => invalidData
  | slot :: slots =>
      if slot.sensorId = sensorId then slot.latestData else readFrom sensorId slots

/-- `read_shared_sensor_data`. -/
def readSharedSensorData (b : Blackboard) (sensorId : UInt32) : Double :=
  readFrom sensorId b.slots

/-- The ids in the table. -/
def ids (b : Blackboard) : List UInt32 := b.slots.map SharedSensorState.sensorId

/-- The id has a slot, or could get one. -/
def HasPlace (b : Blackboard) (sensorId : UInt32) : Prop := sensorId ∈ b.ids ∨ 0 ∈ b.ids

instance (b : Blackboard) (sensorId : UInt32) : Decidable (b.HasPlace sensorId) :=
  inferInstanceAs (Decidable (_ ∨ _))

/-! ## The scan -/

/-- The first slot with an id is at an index, or there is none. -/
inductive FirstAt (sensorId : UInt32) (slots : List SharedSensorState) : Option Nat → Prop where
  /-- No slot has the id. -/
  | absent : (∀ slot ∈ slots, slot.sensorId ≠ sensorId) → FirstAt sensorId slots none
  /-- The slot behind `before` has the id, and none in `before` has it. -/
  | present {before after : List SharedSensorState} {slot : SharedSensorState} :
      slots = before ++ slot :: after → slot.sensorId = sensorId →
      (∀ s ∈ before, s.sensorId ≠ sensorId) → FirstAt sensorId slots (some before.length)

theorem FirstAt.append {sensorId : UInt32} {slots : List SharedSensorState} {i : Nat}
    (h : FirstAt sensorId slots (some i)) (rest : List SharedSensorState) :
    FirstAt sensorId (slots ++ rest) (some i) := by
  cases h with
  | @present before after slot hslots hid hbefore =>
      subst hslots
      rw [List.append_assoc]
      exact .present rfl hid hbefore

theorem FirstAt.concat {sensorId : UInt32} {slots : List SharedSensorState}
    (h : FirstAt sensorId slots none) (slot : SharedSensorState) :
    FirstAt sensorId (slots ++ [slot])
      (if slot.sensorId = sensorId then some slots.length else none) := by
  cases h with
  | absent habsent =>
      split
      next heq => exact .present rfl heq habsent
      next hne =>
        refine .absent fun s hs => ?_
        rcases List.mem_append.mp hs with hs | hs
        · exact habsent s hs
        · rw [List.mem_singleton.mp hs]
          exact hne

/-- The loop behind the slots `seen`: it goes on from the first free slot of
these and finds the first slot with the id, and without one the first free slot
of the whole table. -/
theorem scan_spec {sensorId : UInt32} (rest : List SharedSensorState) :
    ∀ {seen : List SharedSensorState} {emptyIdx : Option Nat},
      FirstAt sensorId seen none → FirstAt 0 seen emptyIdx →
      FirstAt sensorId (seen ++ rest) (scan sensorId rest seen.length emptyIdx).1 ∧
        ((scan sensorId rest seen.length emptyIdx).1 = none →
          FirstAt 0 (seen ++ rest) (scan sensorId rest seen.length emptyIdx).2) := by
  induction rest with
  | nil =>
      intro seen emptyIdx htarget hempty
      rw [List.append_nil]
      exact ⟨htarget, fun _ => hempty⟩
  | cons slot rest ih =>
      intro seen emptyIdx htarget hempty
      have hnext := htarget.concat slot
      have hsplit : seen ++ slot :: rest = (seen ++ [slot]) ++ rest := by simp
      have hlen : seen.length + 1 = (seen ++ [slot]).length := by simp
      simp only [scan]
      split
      next heq =>
        rw [if_pos heq] at hnext
        refine ⟨?_, fun h => by cases h⟩
        rw [hsplit]
        exact hnext.append rest
      next hne =>
        rw [if_neg hne] at hnext
        rw [hsplit, hlen]
        split
        next hfree =>
          refine ih hnext ?_
          have hfirst := (hfree.2 ▸ hempty).concat slot
          rw [if_pos hfree.1] at hfirst
          exact hfirst
        next hkeep =>
          refine ih hnext ?_
          cases emptyIdx with
          | some i => exact hempty.append [slot]
          | none =>
              have hused : slot.sensorId ≠ 0 := fun h0 => hkeep ⟨h0, rfl⟩
              have hfirst := hempty.concat slot
              rw [if_neg hused] at hfirst
              exact hfirst

/-- What an update that writes `entry` does. -/
inductive Updated (b : Blackboard) (entry : SharedSensorState) (b' : Blackboard) : Prop where
  /-- The id had a slot. -/
  | found {before after : List SharedSensorState} {slot : SharedSensorState} :
      b.slots = before ++ slot :: after → slot.sensorId = entry.sensorId →
      (∀ s ∈ before, s.sensorId ≠ entry.sensorId) →
      b'.slots = before ++ entry :: after → Updated b entry b'
  /-- The first free slot was taken. -/
  | taken {before after : List SharedSensorState} {slot : SharedSensorState} :
      b.slots = before ++ slot :: after → entry.sensorId ∉ b.ids → slot.sensorId = 0 →
      (∀ s ∈ before, s.sensorId ≠ 0) →
      b'.slots = before ++ entry :: after → Updated b entry b'
  /-- There was no slot. -/
  | full : entry.sensorId ∉ b.ids → 0 ∉ b.ids → b' = b → Updated b entry b'

theorem not_mem_ids {b : Blackboard} {sensorId : UInt32} :
    sensorId ∉ b.ids ↔ ∀ slot ∈ b.slots, slot.sensorId ≠ sensorId := by
  simp [ids]

theorem updated (b : Blackboard) (sensorId : UInt32) (data : Double) (now : Int64) :
    Updated b ⟨sensorId, data, now⟩ (b.updateSharedSensorData sensorId data now) := by
  have hset {before after : List SharedSensorState} {slot entry : SharedSensorState} :
      (before ++ slot :: after).set before.length entry = before ++ entry :: after := by simp
  have hspec := @scan_spec sensorId b.slots [] none (.absent (by simp)) (.absent (by simp))
  simp only [updateSharedSensorData]
  rw [List.length_nil, List.nil_append] at hspec
  generalize scan sensorId b.slots 0 none = found at hspec ⊢
  obtain ⟨targetIdx, emptyIdx⟩ := found
  obtain ⟨htarget, hempty⟩ := hspec
  cases htarget with
  | present hslots hid hbefore =>
      refine .found hslots hid hbefore ?_
      simp only [Option.some_or, hslots, hset]
  | absent habsent =>
      cases hempty rfl with
      | present hslots hid hbefore =>
          refine .taken hslots (not_mem_ids.mpr habsent) hid hbefore ?_
          simp only [Option.none_or, hslots, hset]
      | absent hused => exact .full (not_mem_ids.mpr habsent) (not_mem_ids.mpr hused) rfl

/-! ## Reading after an update -/

theorem readFrom_append {sensorId : UInt32} {before after : List SharedSensorState}
    (h : ∀ s ∈ before, s.sensorId ≠ sensorId) :
    readFrom sensorId (before ++ after) = readFrom sensorId after := by
  induction before with
  | nil => rfl
  | cons slot before ih =>
      rw [List.cons_append, readFrom, if_neg (h slot List.mem_cons_self)]
      exact ih fun s hs => h s (List.mem_cons_of_mem slot hs)

/-- A slot with another id does not matter. -/
theorem readFrom_middle {sensorId : UInt32} {before after : List SharedSensorState}
    {slot : SharedSensorState} (h : slot.sensorId ≠ sensorId) :
    readFrom sensorId (before ++ slot :: after) = readFrom sensorId (before ++ after) := by
  induction before with
  | nil => rw [List.nil_append, readFrom, if_neg h, List.nil_append]
  | cons first before ih => rw [List.cons_append, readFrom, ih, List.cons_append, readFrom]

/-- An id that is not in the table reads as `-999.0`. -/
theorem read_eq_invalidData {b : Blackboard} {sensorId : UInt32} (h : sensorId ∉ b.ids) :
    b.readSharedSensorData sensorId = invalidData := by
  have hnone := @readFrom_append sensorId b.slots [] (not_mem_ids.mp h)
  rw [List.append_nil] at hnone
  exact hnone

/-- An update that finds no slot changes nothing. -/
theorem update_of_not_hasPlace {b : Blackboard} {sensorId : UInt32} (h : ¬ b.HasPlace sensorId)
    (data : Double) (now : Int64) : b.updateSharedSensorData sensorId data now = b := by
  obtain ⟨habsent, hused⟩ := not_or.mp h
  cases b.updated sensorId data now with
  | found hslots hid _ _ => exact absurd hid (not_mem_ids.mp habsent _ (by rw [hslots]; simp))
  | taken hslots _ hid _ _ => exact absurd hid (not_mem_ids.mp hused _ (by rw [hslots]; simp))
  | full _ _ hsame => exact hsame

/-- The value that was written is read. -/
theorem read_update_self {b : Blackboard} {sensorId : UInt32} (h : b.HasPlace sensorId)
    (data : Double) (now : Int64) :
    (b.updateSharedSensorData sensorId data now).readSharedSensorData sensorId = data := by
  have hread {before after : List SharedSensorState}
      (hbefore : ∀ s ∈ before, s.sensorId ≠ sensorId) :
      readFrom sensorId (before ++ ⟨sensorId, data, now⟩ :: after) = data := by
    rw [readFrom_append hbefore, readFrom, if_pos rfl]
  rw [readSharedSensorData]
  cases b.updated sensorId data now with
  | found _ _ hbefore hnew =>
      rw [hnew]
      exact hread hbefore
  | taken hslots habsent _ _ hnew =>
      rw [hnew]
      refine hread fun s hs => not_mem_ids.mp habsent s ?_
      rw [hslots]
      exact List.mem_append_left _ hs
  | full habsent hused _ => exact absurd h (not_or.mpr ⟨habsent, hused⟩)

/-- The values of the other sensors stay. -/
theorem read_update_of_ne {b : Blackboard} {sensorId other : UInt32} (hne : other ≠ sensorId)
    (hother : other ≠ 0) (data : Double) (now : Int64) :
    (b.updateSharedSensorData sensorId data now).readSharedSensorData other =
      b.readSharedSensorData other := by
  simp only [readSharedSensorData]
  cases b.updated sensorId data now with
  | found hslots hid _ hnew =>
      rw [hnew, hslots, readFrom_middle hne.symm, readFrom_middle (hid ▸ hne.symm)]
  | taken hslots _ hid _ hnew =>
      rw [hnew, hslots, readFrom_middle hne.symm, readFrom_middle (hid ▸ hother.symm)]
  | full _ _ hsame => rw [hsame]

/-! ## The ids after an update -/

theorem ids_update_of_mem {b : Blackboard} {sensorId : UInt32} (h : sensorId ∈ b.ids)
    (data : Double) (now : Int64) : (b.updateSharedSensorData sensorId data now).ids = b.ids := by
  cases b.updated sensorId data now with
  | found hslots hid _ hnew => simp only [ids, hnew, hslots, List.map_append, List.map_cons, hid]
  | taken _ habsent _ _ _ => exact absurd h habsent
  | full habsent _ _ => exact absurd h habsent

/-- A new id takes the place of the first zero. -/
theorem ids_update_of_free {b : Blackboard} {sensorId : UInt32} {used free : List UInt32}
    (h : b.ids = used ++ 0 :: free) (hused : 0 ∉ used) (habsent : sensorId ∉ b.ids)
    (data : Double) (now : Int64) :
    (b.updateSharedSensorData sensorId data now).ids = used ++ sensorId :: free := by
  cases b.updated sensorId data now with
  | found hslots hid _ _ => exact absurd hid (not_mem_ids.mp habsent _ (by rw [hslots]; simp))
  | @taken before after slot hslots _ hid hbefore hnew =>
      rw [ids, hslots, List.map_append, List.map_cons, hid] at h
      have hfirst : 0 ∉ before.map SharedSensorState.sensorId := by
        simpa using hbefore
      -- Both splits are at the first zero.
      have hlen := congrArg (List.idxOf 0) h
      simp only [List.idxOf_append_of_notMem hfirst, List.idxOf_append_of_notMem hused,
        List.idxOf_cons_self, Nat.add_zero] at hlen
      obtain ⟨hl, hr⟩ := List.append_inj h hlen
      rw [ids, hnew, List.map_append, List.map_cons, hl, List.tail_eq_of_cons_eq hr]
  | full _ hnone _ =>
      refine absurd ?_ hnone
      rw [h]
      simp

theorem mem_ids_of_update {b : Blackboard} {sensorId id : UInt32} {data : Double} {now : Int64}
    (h : id ∈ (b.updateSharedSensorData sensorId data now).ids) :
    id ∈ b.ids ∨ id = sensorId ∧ b.HasPlace sensorId := by
  cases b.updated sensorId data now with
  | found hslots hid _ hnew =>
      simp only [ids, hnew, hslots, List.map_append, List.map_cons] at h ⊢
      rw [hid]
      exact .inl h
  | taken hslots _ hid _ hnew =>
      have hfree : 0 ∈ b.ids := by simp [ids, hslots, hid]
      simp only [ids, hnew, List.map_append, List.map_cons, List.mem_append, List.mem_cons] at h
      rcases h with hold | heq | hold
      · exact .inl (by simp only [ids, hslots, List.map_append, List.mem_append, hold, true_or])
      · exact .inr ⟨heq, .inr hfree⟩
      · exact .inl (by
          simp only [ids, hslots, List.map_append, List.map_cons, List.mem_append, List.mem_cons,
            hold, or_true])
  | full _ _ hsame =>
      rw [hsame] at h
      exact .inl h

/-- An update makes no place that was not there. -/
theorem hasPlace_of_update {b : Blackboard} {sensorId other : UInt32} {data : Double} {now : Int64}
    (h : (b.updateSharedSensorData sensorId data now).HasPlace other) : b.HasPlace other := by
  rcases h with hmem | hfree
  · rcases mem_ids_of_update hmem with hold | ⟨rfl, hplace⟩
    · exact .inl hold
    · exact hplace
  · rcases mem_ids_of_update hfree with hold | ⟨rfl, hplace⟩
    · exact .inr hold
    · exact .inr (or_self_iff.mp hplace)

/-! ## The bounded map -/

/-- The table holds the map `m`. -/
structure Represents (b : Blackboard) (m : BoundedMap UInt32 Double maxSensors) : Prop where
  /-- The keys come first, then the free slots. -/
  ids : b.ids = m.keys ++ List.replicate (maxSensors - m.keys.length) 0
  /-- The id `0` is not a key. -/
  nonzero : 0 ∉ m.keys
  /-- A key reads as its value. -/
  read : ∀ sensorId, sensorId ≠ 0 → b.readSharedSensorData sensorId =
    (m.value sensorId).getD invalidData

theorem represents_zeroed : Represents zeroed .empty where
  ids := by simp [Blackboard.ids, zeroed]
  nonzero := List.not_mem_nil
  read := fun sensorId hne => by
    rw [BoundedMap.value_empty, Option.getD_none]
    refine read_eq_invalidData (not_mem_ids.mpr fun slot hslot => ?_)
    rw [List.eq_of_mem_replicate hslot]
    exact hne.symm

theorem Represents.mem_ids {b : Blackboard} {m : BoundedMap UInt32 Double maxSensors}
    (h : Represents b m) {sensorId : UInt32} (hne : sensorId ≠ 0) :
    sensorId ∈ b.ids ↔ sensorId ∈ m.keys := by
  rw [h.ids, List.mem_append]
  exact or_iff_left fun hmem => hne (List.eq_of_mem_replicate hmem)

theorem Represents.zero_mem_ids {b : Blackboard} {m : BoundedMap UInt32 Double maxSensors}
    (h : Represents b m) : 0 ∈ b.ids ↔ m.keys.length < maxSensors := by
  rw [h.ids, List.mem_append, List.mem_replicate]
  have hnonzero := h.nonzero
  constructor
  · rintro (hmem | ⟨hroom, -⟩)
    · exact absurd hmem hnonzero
    · exact Nat.lt_of_sub_ne_zero hroom
  · intro hroom
    exact .inr ⟨Nat.sub_ne_zero_of_lt hroom, rfl⟩

theorem Represents.hasPlace {b : Blackboard} {m : BoundedMap UInt32 Double maxSensors}
    (h : Represents b m) {sensorId : UInt32} (hne : sensorId ≠ 0) :
    b.HasPlace sensorId ↔ m.HasPlace sensorId :=
  or_congr (h.mem_ids hne) h.zero_mem_ids

/-- An update with the id `0` does not change the map. -/
theorem Represents.update_zero {b : Blackboard} {m : BoundedMap UInt32 Double maxSensors}
    (h : Represents b m) (data : Double) (now : Int64) :
    Represents (b.updateSharedSensorData 0 data now) m := by
  by_cases hfree : 0 ∈ b.ids
  · refine ⟨(ids_update_of_mem hfree data now).trans h.ids, h.nonzero, fun other hother => ?_⟩
    rw [read_update_of_ne hother hother]
    exact h.read other hother
  · rw [update_of_not_hasPlace (not_or.mpr ⟨hfree, hfree⟩)]
    exact h

/-- An update with another id is an insertion into the map. -/
theorem Represents.update {b : Blackboard} {m : BoundedMap UInt32 Double maxSensors}
    (h : Represents b m) {sensorId : UInt32} (hne : sensorId ≠ 0) (data : Double) (now : Int64) :
    Represents (b.updateSharedSensorData sensorId data now) (m.insert sensorId data) := by
  by_cases hplace : m.HasPlace sensorId
  · have hkeys : (m.insert sensorId data).keys = m.keysWith sensorId := by
      rw [BoundedMap.keys_insert, List.take_of_length_le (BoundedMap.length_keysWith_le hplace)]
    refine ⟨?_, ?_, fun other hother => ?_⟩
    · rw [hkeys, BoundedMap.keysWith]
      by_cases hmem : sensorId ∈ m.keys
      · rw [if_pos hmem, ids_update_of_mem ((h.mem_ids hne).mpr hmem), h.ids]
      · have hroom : m.keys.length < maxSensors := hplace.resolve_left hmem
        obtain ⟨room, hroom'⟩ := Nat.exists_eq_add_of_lt hroom
        have hcount : maxSensors - m.keys.length = room + 1 := by omega
        have hleft : maxSensors - (m.keys ++ [sensorId]).length = room := by
          rw [List.length_append, List.length_singleton]
          omega
        have hids := h.ids
        rw [hcount, List.replicate_succ] at hids
        rw [if_neg hmem, hleft, ids_update_of_free hids h.nonzero ((h.mem_ids hne).not.mpr hmem),
          List.append_assoc, List.singleton_append]
    · rw [hkeys, BoundedMap.mem_keysWith]
      exact not_or.mpr ⟨hne.symm, h.nonzero⟩
    · rw [BoundedMap.value_insert hplace]
      by_cases heq : other = sensorId
      · rw [heq, read_update_self ((h.hasPlace hne).mpr hplace), Function.update_self]
        rfl
      · rw [read_update_of_ne heq hother, Function.update_of_ne heq]
        exact h.read other hother
  · rw [update_of_not_hasPlace ((h.hasPlace hne).not.mpr hplace),
      BoundedMap.insert_of_not_hasPlace hplace]
    exact h

/-! ## Sequences of updates -/

/-- A call of `update_shared_sensor_data`. -/
structure Update where
  sensorId : UInt32
  data : Double
  /-- What `get_time_ms` returns. -/
  now : Int64

/-- The table after a sequence of calls. -/
def updateAll (b : Blackboard) (updates : List Update) : Blackboard :=
  updates.foldl (fun b u => b.updateSharedSensorData u.sensorId u.data u.now) b

/-- The calls that name a sensor, as insertions. -/
def insertions (updates : List Update) : List (UInt32 × Double) :=
  (updates.filter fun u => u.sensorId ≠ 0).map fun u => (u.sensorId, u.data)

/-- The sensors named by a sequence of calls, in the order they came. -/
def sensors (updates : List Update) : List UInt32 :=
  ((updates.map Update.sensorId).filter fun id => id ≠ 0).eraseDups

theorem map_fst_insertions (updates : List Update) :
    (insertions updates).map Prod.fst =
      (updates.map Update.sensorId).filter fun id => id ≠ 0 := by
  simp [insertions, List.filter_map, Function.comp_def]

theorem insertions_concat_zero (updates : List Update) {u : Update} (h : u.sensorId = 0) :
    insertions (updates ++ [u]) = insertions updates := by
  simp [insertions, h]

theorem insertions_concat (updates : List Update) {u : Update} (h : u.sensorId ≠ 0) :
    insertions (updates ++ [u]) = insertions updates ++ [(u.sensorId, u.data)] := by
  simp [insertions, h]

/-- After any sequence of calls the table holds the map they build. -/
theorem represents_updateAll (updates : List Update) :
    Represents (zeroed.updateAll updates) (.ofList (insertions updates)) := by
  induction updates using List.reverseRecOn with
  | nil => exact represents_zeroed
  | append_singleton updates u ih =>
      have hlast : zeroed.updateAll (updates ++ [u]) =
          (zeroed.updateAll updates).updateSharedSensorData u.sensorId u.data u.now := by
        simp [updateAll]
      rw [hlast]
      by_cases hzero : u.sensorId = 0
      · rw [insertions_concat_zero updates hzero, hzero]
        exact ih.update_zero u.data u.now
      · rw [insertions_concat updates hzero, BoundedMap.ofList_concat]
        exact ih.update hzero u.data u.now

/-- The value of the last call for a sensor. -/
def lastData (updates : List Update) (sensorId : UInt32) : Option Double :=
  (updates.map fun u => (u.sensorId, u.data)).lastValue sensorId

/-- The calls with the id `0` are not the last ones for any other sensor. -/
theorem lastValue_insertions (updates : List Update) {sensorId : UInt32} (hne : sensorId ≠ 0) :
    (insertions updates).lastValue sensorId = lastData updates sensorId := by
  induction updates using List.reverseRecOn with
  | nil => rfl
  | append_singleton updates u ih =>
      rw [lastData] at ih ⊢
      rw [List.map_append, List.map_singleton, List.lastValue_concat, ← ih]
      by_cases hzero : u.sensorId = 0
      · rw [insertions_concat_zero updates hzero, if_neg (hzero ▸ hne)]
      · rw [insertions_concat updates hzero, List.lastValue_concat]

/-! ## The refinement -/

/-- The table is a bounded map: after any sequence of calls it holds the first
100 sensors that were named, each with its last value. -/
theorem refines_boundedMap (updates : List Update) :
    ((zeroed.updateAll updates).ids.filter fun id => id ≠ 0).Nodup ∧
      ((zeroed.updateAll updates).ids.filter fun id => id ≠ 0) = (sensors updates).take 100 ∧
      (∀ sensorId, sensorId ≠ 0 →
        (sensorId ∈ (sensors updates).take 100 →
          some ((zeroed.updateAll updates).readSharedSensorData sensorId) =
            lastData updates sensorId) ∧
        (sensorId ∉ (sensors updates).take 100 →
          (zeroed.updateAll updates).readSharedSensorData sensorId = invalidData)) ∧
      (∀ sensorId data now, sensorId ∉ (zeroed.updateAll updates).ids →
        0 ∉ (zeroed.updateAll updates).ids →
        (zeroed.updateAll updates).updateSharedSensorData sensorId data now =
          zeroed.updateAll updates) := by
  have h := represents_updateAll updates
  have hkeys : (BoundedMap.ofList (insertions updates) :
      BoundedMap UInt32 Double maxSensors).keys = (sensors updates).take 100 := by
    rw [BoundedMap.keys_ofList, map_fst_insertions]
    rfl
  have hids : ((zeroed.updateAll updates).ids.filter fun id => id ≠ 0) =
      (sensors updates).take 100 := by
    have hnonzero := h.nonzero
    rw [hkeys] at hnonzero
    rw [h.ids, hkeys, List.filter_append]
    simp only [List.filter_replicate]
    rw [List.filter_eq_self.mpr fun id hid => decide_eq_true (ne_of_mem_of_not_mem hid hnonzero)]
    simp
  refine ⟨?_, hids, fun sensorId hne => ⟨fun hmem => ?_, fun hnot => ?_⟩,
    fun _ data now habsent hused => update_of_not_hasPlace (not_or.mpr ⟨habsent, hused⟩) data now⟩
  · rw [hids, ← hkeys]
    exact BoundedMap.nodup _
  · rw [← hkeys] at hmem
    have hsome := (BoundedMap.isSome_iff _ _).mpr hmem
    rw [h.read sensorId hne, ← lastValue_insertions updates hne, ← BoundedMap.value_ofList _ hmem]
    obtain ⟨data, hdata⟩ := Option.isSome_iff_exists.mp hsome
    rw [hdata, Option.getD_some]
  · rw [← hkeys] at hnot
    rw [h.read sensorId hne, BoundedMap.value_eq_none hnot, Option.getD_none]

end Blackboard

end IotEdge
