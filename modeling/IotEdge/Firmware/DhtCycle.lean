import Mathlib.Data.List.GetD
import IotEdge.Lib.Machine

/-!
# The measuring cycle

`main` of the firmware reads the sensor in every tenth pass of its loop and sends what
it has.  `get_dht_value` returns early when the sensor does not answer, and does not say
so: the buffer keeps what was in it.

The buffer starts with zeros, whose checksum is right, and a frame with a wrong checksum
makes `main` send the last values it had.  So the first reading decides
(`transmits_measured_iff`): once a frame was valid, all that is sent is the last valid
frame.
-/

namespace IotEdge.Dht

/-- Five bytes of the sensor: humidity, temperature, checksum. -/
abbrev Frame := Vector UInt8 5

/-! ## Reading the sensor -/

/-- `tmp` with one more bit. -/
def shift (tmp : UInt8) (level : Bool) : UInt8 := tmp <<< 1 ||| if level then 1 else 0

/-- The local variables of `get_dht_value` while it receives. -/
structure Reader where
  /-- The bits of the byte that is being received. -/
  tmp : UInt8
  /-- How many bits were received. -/
  i : Nat
  /-- The caller's buffer. -/
  data : Frame

/-- One pass of the receiving loop.  `level` is the level of the line after 40 µs. -/
def Reader.bit (r : Reader) (level : Bool) : Reader :=
  if (r.i + 1) % 8 = 0 then
    ⟨0, r.i + 1, r.data.setIfInBounds (r.i / 8) (shift r.tmp level)⟩
  else
    ⟨shift r.tmp level, r.i + 1, r.data⟩

/-- The bits of a byte as the sensor sends them, the highest first. -/
def bits (b : UInt8) : List Bool :=
  [7, 6, 5, 4, 3, 2, 1].map (fun k => (b >>> k) % 2 == 1) ++ [b % 2 == 1]

/-- The bits of a frame. -/
def frameBits (f : Frame) : List Bool := f.toList.flatMap bits

/-- `get_dht_value`.  `none` when the sensor did not answer in time. -/
def getDhtValue (answer : Option Frame) (data : Frame) : Frame :=
  match answer with
  | none => data
  | some f => ((frameBits f).foldl Reader.bit ⟨0, 0, data⟩).data

/-- Within a byte the buffer does not change. -/
theorem foldl_bit_of_lt {levels : List Bool} {tmp : UInt8} {i : Nat} {data : Frame}
    (h : i % 8 + levels.length < 8) : levels.foldl Reader.bit ⟨tmp, i, data⟩ =
      ⟨levels.foldl shift tmp, i + levels.length, data⟩ := by
  induction levels generalizing tmp i with
  | nil => rfl
  | cons level levels ih =>
      rw [List.length_cons] at h
      have hbit : Reader.bit ⟨tmp, i, data⟩ level = ⟨shift tmp level, i + 1, data⟩ :=
        if_neg (by dsimp only; omega)
      rw [List.foldl_cons, hbit, ih (by omega), List.foldl_cons, List.length_cons]
      congr 1
      omega

/-- Eight shifts make a byte. -/
theorem foldl_shift_bits (b : UInt8) : (bits b).foldl shift 0 = b := by
  have h : ∀ n : Fin 256, (bits (UInt8.ofFin n)).foldl shift 0 = UInt8.ofFin n := by
    decide +kernel
  exact h b.toFin

/-- Eight bits store a byte. -/
theorem foldl_bits (b : UInt8) (k : Nat) (data : Frame) :
    (bits b).foldl Reader.bit ⟨0, 8 * k, data⟩ =
      ⟨0, 8 * (k + 1), data.setIfInBounds k b⟩ := by
  have hb := foldl_shift_bits b
  rw [bits, List.foldl_append] at hb ⊢
  generalize hlevels : [7, 6, 5, 4, 3, 2, 1].map (fun k => (b >>> k) % 2 == 1) = levels at hb ⊢
  have hlength : levels.length = 7 := by rw [← hlevels]; rfl
  have hmid : levels.foldl Reader.bit ⟨0, 8 * k, data⟩ =
      ⟨levels.foldl shift 0, 8 * k + 7, data⟩ := by
    rw [foldl_bit_of_lt (by omega), hlength]
  have hlast : (8 * k + 7) / 8 = k := by omega
  rw [hmid]
  refine (if_pos (by dsimp only; omega)).trans ?_
  rw [hlast]
  exact congrArg (fun b => Reader.mk 0 (8 * (k + 1)) (data.setIfInBounds k b)) hb

/-- Bytes one after the other are stored one after the other. -/
theorem foldl_flatMap_bits {bytes : List UInt8} {k : Nat} {data : Frame} (j : Nat)
    (hj : j < 5) : ((bytes.flatMap bits).foldl Reader.bit ⟨0, 8 * k, data⟩).data[j] =
      if j < k then data[j] else bytes.getD (j - k) data[j] := by
  induction bytes generalizing k data with
  | nil => simp
  | cons b bytes ih =>
      rw [List.flatMap_cons, List.foldl_append, foldl_bits, ih, Vector.getElem_setIfInBounds hj]
      rcases lt_trichotomy j k with hlt | rfl | hgt
      · rw [if_pos (by omega), if_neg (by omega), if_pos hlt]
      · rw [if_pos (by omega), if_pos rfl, if_neg (by omega), Nat.sub_self]
        rfl
      · rw [if_neg (by omega), if_neg (by omega), if_neg (by omega),
          show j - k = j - (k + 1) + 1 by omega]
        rfl

/-- The caller's buffer holds the frame. -/
theorem getDhtValue_some (f data : Frame) : getDhtValue (some f) data = f := by
  refine Vector.ext fun j hj => (foldl_flatMap_bits (k := 0) j hj).trans ?_
  rw [if_neg (Nat.not_lt_zero j), Nat.sub_zero, List.getD_eq_getElem _ _ (by simpa using hj),
    Vector.getElem_toList]

/-! ## The loop of `main` -/

/-- `TEMP_SENSOR_ID`. -/
def tempSensorId : UInt32 := 16790

/-- `HUM_SENSOR_ID`. -/
def humSensorId : UInt32 := 16789

/-- The checksum of a frame is right. -/
def Valid (f : Frame) : Prop := f[0] + f[1] + f[2] + f[3] = f[4]

instance : DecidablePred Valid := fun _ => inferInstanceAs (Decidable (_ = _))

/-- The humidity of a frame. -/
def hum (f : Frame) : Float32 := f[0].toFloat32 + f[1].toFloat32 * 0.1

/-- The temperature of a frame. -/
def temp (f : Frame) : Float32 := f[2].toFloat32 + f[3].toFloat32 * 0.1

/-- The variables of `main`, the frames it received and what it sent in the last pass. -/
structure State where
  count : Int32
  dhtData : Frame
  currentTemp : Float32
  currentHum : Float32
  /-- The frames of the sensor, the last one first. -/
  received : List Frame
  /-- The arguments of the calls of `send_sensor_data` in the last pass. -/
  sent : List (UInt32 × Float32)

/-- One pass of the loop. -/
inductive Pass where
  /-- The sensor is not read. -/
  | idle
  /-- The sensor is read, and this is its answer. -/
  | read (answer : Option Frame)

namespace State

/-- The state before the loop. -/
def init : State := ⟨0, #v[0, 0, 0, 0, 0], 0.0, 0.0, [], []⟩

/-- The values of the buffer, if its checksum is right. -/
def convert (s : State) : State :=
  if Valid s.dhtData then
    { s with currentHum := hum s.dhtData, currentTemp := temp s.dhtData }
  else s

/-- Both values are sent. -/
def send (s : State) : State :=
  { s with sent := [(tempSensorId, s.currentTemp), (humSensorId, s.currentHum)] }

/-- The pass counter goes up, and the sensor's answer is put into the buffer. -/
def get (s : State) (answer : Option Frame) : State :=
  { s with
    count := s.count + 1
    dhtData := getDhtValue answer s.dhtData
    received := answer.toList ++ s.received }

end State

/-- One pass. -/
def step (s : State) : Pass → Option State
  | .idle =>
      if (s.count + 1) % 10 = 0 then none else some { s with count := s.count + 1, sent := [] }
  | .read answer =>
      if (s.count + 1) % 10 = 0 then some (s.get answer).convert.send else none

/-- The loop of `main`. -/
def machine : Machine State Pass := ⟨.init, step⟩

/-! ## What is sent -/

/-- The last valid frame of the sensor. -/
def State.lastValid (s : State) : Option Frame := s.received.find? (fun f => Valid f)

/-- What is sent is the last valid frame. -/
def State.Measured (s : State) : Prop :=
  s.sent ≠ [] → ∃ f, s.lastValid = some f ∧
    s.sent = [(tempSensorId, temp f), (humSensorId, hum f)]

/-- The values are those of a frame, and the buffer holds no other valid frame. -/
structure State.Shows (s : State) (f : Frame) : Prop where
  currentTemp : s.currentTemp = temp f
  currentHum : s.currentHum = hum f
  dhtData : Valid s.dhtData → s.dhtData = f

/-- The answer of the sensor in a pass. -/
def Pass.answer : Pass → Option (Option Frame)
  | .idle => none
  | .read answer => some answer

/-- The frame of a pass. -/
def Pass.frame (p : Pass) : Option Frame := p.answer.join

/-- The first answer of the sensor is a valid frame. -/
def FirstValid (as : List Pass) : Prop :=
  ∀ answer, as.findSome? Pass.answer = some answer → ∃ f, answer = some f ∧ Valid f

/-- A valid frame was received before the pass or in it. -/
def Covered (s : State) (p : Pass) : Prop :=
  ∀ answer, p = .read answer → ∃ f ∈ answer.toList ++ s.received, Valid f

/-- The values and the buffer after a reading. -/
theorem State.Shows.get_convert {s : State} {f : Frame} {answer : Option Frame}
    (h : ∀ f, s.lastValid = some f → s.Shows f) (hf : (s.get answer).lastValid = some f) :
    ((s.get answer).convert).Shows f := by
  cases answer with
  | none =>
      have hs := h f hf
      rw [convert]
      split
      next hvalid =>
        have hdata : (s.get none).dhtData = f := hs.dhtData hvalid
        exact ⟨congrArg temp hdata, congrArg hum hdata, fun _ => hdata⟩
      next hinvalid => exact ⟨hs.currentTemp, hs.currentHum, fun hvalid => absurd hvalid hinvalid⟩
  | some g =>
      have hdata : (s.get (some g)).dhtData = g := getDhtValue_some g s.dhtData
      rw [convert, hdata]
      split
      next hvalid =>
        have hfg : f = g := by
          rw [lastValid, get, Option.toList_some, List.singleton_append,
            List.find?_cons_of_pos (by simpa using hvalid)] at hf
          exact (Option.some.inj hf).symm
        subst hfg
        exact ⟨rfl, rfl, fun _ => rfl⟩
      next hinvalid =>
        have hlast : s.lastValid = some f := by
          rw [lastValid, get, Option.toList_some, List.singleton_append,
            List.find?_cons_of_neg (by simpa using hinvalid)] at hf
          exact hf
        have hs := h f hlast
        refine ⟨hs.currentTemp, hs.currentHum, fun hvalid => ?_⟩
        rw [hdata] at hvalid
        exact absurd hvalid hinvalid

/-- What `main` has after each pass of a run whose sendings are covered. -/
structure State.Inv (s : State) : Prop where
  /-- The last pass sent the last valid frame. -/
  measured : s.Measured
  /-- The values are those of the last valid frame. -/
  shows : ∀ f, s.lastValid = some f → s.Shows f

@[simp] theorem State.received_convert (s : State) : s.convert.received = s.received := by
  rw [convert]
  split <;> rfl

/-- What a step does. -/
theorem step_cases {s s' : State} {p : Pass} (hs : step s p = some s') :
    (p = .idle ∧ s' = { s with count := s.count + 1, sent := [] }) ∨
      ∃ answer, p = .read answer ∧ s' = (s.get answer).convert.send := by
  cases p with
  | idle =>
      simp only [step] at hs
      split at hs
      next => cases hs
      next => exact .inl ⟨rfl, (Option.some.inj hs).symm⟩
  | read answer =>
      simp only [step] at hs
      split at hs
      next => exact .inr ⟨answer, rfl, (Option.some.inj hs).symm⟩
      next => cases hs

/-- There is a last valid frame just when there is a valid frame. -/
theorem State.lastValid_eq_none {s : State} :
    s.lastValid = none ↔ ¬ ∃ f ∈ s.received, Valid f := by
  simp [lastValid]

theorem State.lastValid_send (s : State) (answer : Option Frame) :
    (s.get answer).convert.send.lastValid = (s.get answer).lastValid :=
  congrArg (List.find? _) (s.get answer).received_convert

/-- A covered pass keeps the invariant. -/
theorem State.Inv.step {s s' : State} {p : Pass} (h : s.Inv) (hs : step s p = some s')
    (hc : Covered s p) : s'.Inv := by
  rcases step_cases hs with ⟨-, rfl⟩ | ⟨answer, rfl, rfl⟩
  · refine ⟨fun hsent => absurd rfl hsent, fun f hf => ?_⟩
    have hshows := h.shows f hf
    exact ⟨hshows.currentTemp, hshows.currentHum, hshows.dhtData⟩
  · have hshows : ∀ f, (s.get answer).lastValid = some f → (s.get answer).convert.Shows f :=
      fun f hf => State.Shows.get_convert h.shows hf
    constructor
    · intro _
      rw [State.lastValid_send]
      cases hlast : (s.get answer).lastValid with
      | none => exact absurd (hc answer rfl) (State.lastValid_eq_none.mp hlast)
      | some f =>
          have hf := hshows f hlast
          refine ⟨f, rfl, ?_⟩
          rw [State.send, hf.currentTemp, hf.currentHum]
    · intro f hf
      rw [State.lastValid_send] at hf
      have hf := hshows f hf
      exact ⟨hf.currentTemp, hf.currentHum, hf.dhtData⟩

/-- In a pass that is not covered something else is sent. -/
theorem not_measured_of_not_covered {s s' : State} {p : Pass} (hs : step s p = some s')
    (hc : ¬ Covered s p) : ¬ s'.Measured := by
  rcases step_cases hs with ⟨rfl, -⟩ | ⟨answer, rfl, rfl⟩
  · exact absurd (fun _ h => by cases h) hc
  · intro hmeasured
    obtain ⟨f, hlast, -⟩ := hmeasured (List.cons_ne_nil _ _)
    rw [State.lastValid_send] at hlast
    refine hc fun _ h => ?_
    cases h
    exact ⟨f, List.mem_of_find?_eq_some hlast, by simpa using List.find?_some hlast⟩

/-- The frames that were received are those of the passes. -/
theorem received_eq {as : List Pass} {s : State} (hrun : machine.run as = some s) :
    s.received = (as.filterMap Pass.frame).reverse := by
  induction as using List.reverseRecOn generalizing s with
  | nil =>
      cases hrun
      rfl
  | append_singleton as p ih =>
      obtain ⟨t, ht, hstep⟩ := Machine.run_concat_eq_some.mp hrun
      rw [List.filterMap_append, List.reverse_append, ← ih ht]
      rcases step_cases hstep with ⟨rfl, rfl⟩ | ⟨answer, rfl, rfl⟩
      · rfl
      · cases answer <;> exact (State.get _ _).received_convert

/-- All readings are covered just when the first one is. -/
theorem eachStep_covered_iff {as : List Pass} {s : State} (hrun : machine.run as = some s) :
    machine.EachStep as Covered ↔ FirstValid as := by
  induction as using List.reverseRecOn generalizing s with
  | nil => exact iff_of_true Machine.eachStep_nil fun _ h => by cases h
  | append_singleton as p ih =>
      obtain ⟨t, ht, -⟩ := Machine.run_concat_eq_some.mp hrun
      rw [Machine.eachStep_concat ht, ih ht, FirstValid, FirstValid, List.findSome?_append]
      cases hfirst : as.findSome? Pass.answer with
      | some answer =>
          -- The first reading is in `as`, and it covers the later ones.
          refine and_iff_left_of_imp fun hvalid answer' _ => ?_
          obtain ⟨f, rfl, hf⟩ := hvalid answer rfl
          refine ⟨f, List.mem_append_right _ ?_, hf⟩
          obtain ⟨q, hq, hanswer⟩ := List.exists_of_findSome?_eq_some hfirst
          rw [received_eq ht, List.mem_reverse, List.mem_filterMap]
          exact ⟨q, hq, congrArg Option.join hanswer⟩
      | none =>
          -- Nothing was received before.
          have hreceived : t.received = [] := by
            rw [received_eq ht, List.reverse_eq_nil_iff, List.filterMap_eq_nil_iff]
            exact fun q hq => congrArg Option.join (List.findSome?_eq_none_iff.mp hfirst q hq)
          refine (and_iff_right fun _ h => by cases h).trans ?_
          rw [Covered, hreceived]
          cases p with
          | idle => exact iff_of_true (fun _ h => by cases h) fun _ h => by cases h
          | read answer => simp [Pass.answer]

/-- Along any run, all that is sent is the last valid frame, just when the first answer
of the sensor is a valid frame. -/
theorem transmits_measured_iff {as : List Pass} {s : State} (hrun : machine.run as = some s) :
    machine.Always as State.Measured ↔ FirstValid as := by
  rw [← eachStep_covered_iff hrun]
  exact Machine.always_iff_eachStep_of_invariant (I := State.Inv)
    ⟨fun h => absurd rfl h, fun _ h => by cases h⟩ State.Inv.measured State.Inv.step
    (fun _ hs hc => not_measured_of_not_covered hs hc) hrun

/-- Nine passes without a reading, then one in which the sensor does not answer. -/
def firstTimeout : List Pass := List.replicate 9 .idle ++ [.read none]

/-- The zeros of the buffer are sent. -/
theorem transmits_measured_iff_timeout : ¬ machine.Always firstTimeout State.Measured := by
  have hrun : ∃ s, machine.run firstTimeout = some s :=
    Option.isSome_iff_exists.mp (by decide)
  obtain ⟨s, hs⟩ := hrun
  intro h
  obtain ⟨f, hf, -⟩ := (transmits_measured_iff hs).mp h none rfl
  cases hf

/-- Something that was not measured can be sent. -/
theorem zeros_transmitted : ¬ ∀ s, machine.Reachable s → s.Measured := by
  intro h
  have hrun : ∃ s, machine.run firstTimeout = some s ∧ s.sent ≠ [] ∧ s.received = [] :=
    ⟨_, rfl, by simp [State.send], rfl⟩
  obtain ⟨s, hs, hsent, hreceived⟩ := hrun
  obtain ⟨f, hf, -⟩ := h s (.of_run hs) hsent
  rw [State.lastValid, hreceived] at hf
  cases hf

end IotEdge.Dht
