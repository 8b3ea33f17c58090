import IotEdge.Firmware.IicBus

/-!
# The SHT30 sensor

The driver of the sensor waits for each acknowledge in a loop that calls `IIC_Wait_Ack` until it
comes.  When none comes, `IIC_Wait_Ack` stops the transfer, and nobody listens any more: the loop
never ends (`waitUntilAck_refused`).  So a measurement ends just when every byte is acknowledged at
once (`measure_ends_iff`), and then gives the two words that the sensor sent.
-/

open TwoWire

namespace IotEdge.Sht

open IicBus (Wire)

universe u

variable {σ : Type u} (d : Device σ)

/-- `SLAVE_ADDR`. -/
def slaveAddr : UInt8 := 0x88

/-- `PERIODIC_MODE_HIGH`. -/
def periodicModeHigh : UInt16 := 0x2737

/-- `FETCH_DATA`. -/
def fetchData : UInt16 := 0xe000

/-! ## The driver -/

/-- `while(IIC_Wait_Ack());`, which has not ended after `fuel` rounds if this is `none`. -/
def waitUntilAck : Nat → Wire σ → Option (Wire σ)
  | 0, _ => none
  | fuel + 1, w =>
      let (failed, w) := w.waitAck d
      if failed = 0 then some w else waitUntilAck fuel w

/-- `sht_write_mode`. -/
def shtWriteMode (fuel : Nat) (w : Wire σ) : Option (Wire σ) := do
  let w := w.start d
  let w := w.sendByte d slaveAddr
  let w ← waitUntilAck d fuel w
  let w := w.sendByte d (periodicModeHigh >>> 8).toUInt8
  let w ← waitUntilAck d fuel w
  let w := w.sendByte d (periodicModeHigh &&& 0xff).toUInt8
  let w ← waitUntilAck d fuel w
  return w.stop d

/-- `sht_write_read_cmd`.  The transfer is not stopped. -/
def shtWriteReadCmd (fuel : Nat) (w : Wire σ) : Option (Wire σ) := do
  let w := w.start d
  let w := w.sendByte d slaveAddr
  let w ← waitUntilAck d fuel w
  let w := w.sendByte d (fetchData >>> 8).toUInt8
  let w ← waitUntilAck d fuel w
  let w := w.sendByte d (fetchData &&& 0xff).toUInt8
  waitUntilAck d fuel w

/-- The loop of `sht_read_data`, for the bytes that are left.  The last one is not acknowledged. -/
def readBuf : Nat → Wire σ → List UInt8 × Wire σ
  | 0, w => ([], w)
  | left + 1, w =>
      let (byte, w) := w.recvByte d (if left = 0 then 0 else 1)
      let (buf, w) := readBuf left w
      (byte :: buf, w)

/-- The words of a measurement, before they become numbers. -/
structure Sample where
  temp : UInt16
  hum : UInt16
  deriving DecidableEq, Repr

/-- A word with this high and low byte. -/
def word (high low : UInt8) : UInt16 := ((high &&& 0xff).toUInt16 <<< 8) ||| low.toUInt16

/-- `sht_read_data`, up to the conversion. -/
def shtReadData (fuel : Nat) (w : Wire σ) : Option (Sample × Wire σ) := do
  let w := w.start d
  let w := w.sendByte d (slaveAddr ||| 1)
  let w ← waitUntilAck d fuel w
  let (buf, w) := readBuf d 6 w
  let w := w.stop d
  return (⟨word (buf.getD 0 0) (buf.getD 1 0), word (buf.getD 3 0) (buf.getD 4 0)⟩, w)

/-- A measurement: the mode, the command, and then the data. -/
def measure (fuel : Nat) (w : Wire σ) : Option (Sample × Wire σ) := do
  let w ← shtWriteMode d fuel w
  let w ← shtWriteReadCmd d fuel w
  shtReadData d fuel w

/-! ## Waiting -/

variable {d}

/-- The acknowledge comes at once. -/
theorem waitUntilAck_acknowledged {w : Wire σ} {s s' : Session σ} (hw : w.Shows s)
    (h : s.request d .wait = some (.acknowledged true, s')) :
    ∃ w', w'.Shows s' ∧ ∀ fuel, waitUntilAck d (fuel + 1) w = some w' := by
  obtain ⟨hreply, hw'⟩ := Wire.call_refines hw h
  refine ⟨_, hw', fun fuel => ?_⟩
  have hzero : (w.waitAck d).1 = 0 := of_decide_eq_true (Reply.acknowledged.inj hreply)
  rw [waitUntilAck]
  exact if_pos hzero

/-- The lines are free, and nobody answers. -/
theorem waitUntilAck_free {w : Wire σ} {s : σ} (hw : w.Shows ⟨.free, s⟩) (fuel : Nat) :
    waitUntilAck d fuel w = none := by
  induction fuel generalizing w s with
  | zero => rfl
  | succ fuel ih =>
      obtain ⟨hreply, hw'⟩ := Wire.call_refines (d := d) (r := .wait) hw rfl
      have hone : (w.waitAck d).1 ≠ 0 := of_decide_eq_false (Reply.acknowledged.inj hreply)
      rw [waitUntilAck]
      exact (if_neg hone).trans (ih hw')

/-- An acknowledge that does not come stops the transfer. -/
theorem turn_of_refused {s s' : Session σ}
    (h : s.request d .wait = some (.acknowledged false, s')) : s'.turn = .free := by
  obtain ⟨turn, device⟩ := s
  cases turn with
  | sends => cases h
  | acknowledges => cases h
  | free | listens | deaf =>
      cases h
      rfl

/-- An acknowledge that does not come at once never comes. -/
theorem waitUntilAck_refused {w : Wire σ} {s s' : Session σ} (hw : w.Shows s)
    (h : s.request d .wait = some (.acknowledged false, s')) (fuel : Nat) :
    waitUntilAck d fuel w = none := by
  obtain ⟨hreply, hw'⟩ := Wire.call_refines hw h
  have hone : (w.waitAck d).1 ≠ 0 := of_decide_eq_false (Reply.acknowledged.inj hreply)
  obtain ⟨turn, device⟩ := s'
  obtain rfl : turn = .free := turn_of_refused h
  cases fuel with
  | zero => rfl
  | succ fuel =>
      rw [waitUntilAck]
      exact (if_neg hone).trans (waitUntilAck_free hw' fuel)

/-! ## Patient calls -/

/-- Calls one after the other, where each acknowledge is waited for in the loop. -/
def patient (d : Device σ) (fuel : Nat) (w : Wire σ) : List Request → Option (List Reply × Wire σ)
  | [] => some ([], w)
  | .wait :: rs => do
      let w ← waitUntilAck d fuel w
      let (replies, w) ← patient d fuel w rs
      return (.acknowledged true :: replies, w)
  | r :: rs => do
      let (reply, w) := w.call d r
      let (replies, w) ← patient d fuel w rs
      return (reply :: replies, w)

/-- Every byte is acknowledged. -/
def AllAcknowledged (replies : List Reply) : Prop := Reply.acknowledged false ∉ replies

instance : DecidablePred AllAcknowledged :=
  fun replies => inferInstanceAs (Decidable (Reply.acknowledged false ∉ replies))

/-- A wait is answered by an acknowledge, or by none. -/
theorem reply_of_wait {s s' : Session σ} {reply : Reply}
    (h : s.request d .wait = some (reply, s')) : ∃ ok, reply = .acknowledged ok := by
  obtain ⟨turn, device⟩ := s
  cases turn with
  | sends => cases h
  | acknowledges | free | listens | deaf =>
      cases h
      exact ⟨_, rfl⟩

/-- Nothing else is. -/
theorem reply_ne_acknowledged {s s' : Session σ} {r : Request} {reply : Reply}
    (h : s.request d r = some (reply, s')) (hr : r ≠ .wait) (ok : Bool) :
    reply ≠ .acknowledged ok := by
  obtain ⟨turn, device⟩ := s
  cases r with
  | wait => exact absurd rfl hr
  | start | stop =>
      cases turn with
      | acknowledges | sends => cases h
      | free | listens | deaf =>
          cases h
          exact Reply.noConfusion
  | send txd =>
      cases turn with
      | acknowledges | sends => cases h
      | free | deaf =>
          cases h
          exact Reply.noConfusion
      | listens =>
          rw [Session.request] at h
          dsimp only at h
          split at h
          next =>
            cases h
            exact Reply.noConfusion
          next =>
            cases h
            exact Reply.noConfusion
  | take ack =>
      cases turn with
      | acknowledges | listens => cases h
      | free | deaf | sends =>
          cases h
          exact Reply.noConfusion

theorem patient_of_ne_wait {r : Request} (hr : r ≠ .wait) (fuel : Nat) (w : Wire σ)
    (rs : List Request) : patient d fuel w (r :: rs) =
      (patient d fuel (w.call d r).2 rs).map fun p => ((w.call d r).1 :: p.1, p.2) := by
  have hbind : patient d fuel w (r :: rs) =
      (patient d fuel (w.call d r).2 rs).bind fun p => some ((w.call d r).1 :: p.1, p.2) := by
    cases r with
    | wait => exact absurd rfl hr
    | start | stop | send | take => rfl
  rw [hbind, Option.map_eq_bind]
  rfl

theorem patient_wait (fuel : Nat) (w : Wire σ) (rs : List Request) :
    patient d fuel w (.wait :: rs) = (waitUntilAck d fuel w).bind fun w =>
      (patient d fuel w rs).map fun p => (.acknowledged true :: p.1, p.2) := by
  have hbind : patient d fuel w (.wait :: rs) = (waitUntilAck d fuel w).bind fun w =>
      (patient d fuel w rs).bind fun p => some (.acknowledged true :: p.1, p.2) := rfl
  rw [hbind]
  simp only [Option.map_eq_bind]
  rfl

/-- If every byte is acknowledged at once, the calls end, with the replies of the bus. -/
theorem patient_acknowledged {w : Wire σ} {s s' : Session σ} {rs : List Request}
    {replies : List Reply} (hw : w.Shows s) (h : s.requests d rs = some (replies, s'))
    (hall : AllAcknowledged replies) :
    ∃ w', w'.Shows s' ∧ ∀ fuel, patient d (fuel + 1) w rs = some (replies, w') := by
  induction rs generalizing w s replies with
  | nil =>
      cases h
      exact ⟨w, hw, fun fuel => rfl⟩
  | cons r rs ih =>
      obtain ⟨reply, s₁, replies, hr, hrs, rfl⟩ := Session.requests_cons_eq_some h
      obtain ⟨hreply, htail⟩ := not_or.mp (mt List.mem_cons.mpr hall)
      by_cases hwait : r = .wait
      · subst hwait
        obtain ⟨ok, rfl⟩ := reply_of_wait hr
        obtain rfl : ok = true := Bool.eq_true_of_not_eq_false fun hok => hreply (hok ▸ rfl)
        obtain ⟨w₁, hw₁, hfirst⟩ := waitUntilAck_acknowledged hw hr
        obtain ⟨w', hw', hrest⟩ := ih hw₁ hrs htail
        refine ⟨w', hw', fun fuel => ?_⟩
        rw [patient_wait, hfirst, Option.bind_some, hrest]
        rfl
      · obtain ⟨hreply', hw₁⟩ := Wire.call_refines hw hr
        obtain ⟨w', hw', hrest⟩ := ih hw₁ hrs htail
        refine ⟨w', hw', fun fuel => ?_⟩
        rw [patient_of_ne_wait hwait, hrest, hreply']
        rfl

/-- If a byte is not acknowledged, the calls never end. -/
theorem patient_refused {w : Wire σ} {s s' : Session σ} {rs : List Request}
    {replies : List Reply} (hw : w.Shows s) (h : s.requests d rs = some (replies, s'))
    (hall : ¬ AllAcknowledged replies) (fuel : Nat) : patient d fuel w rs = none := by
  rw [AllAcknowledged, not_not] at hall
  induction rs generalizing w s replies with
  | nil =>
      cases h
      cases hall
  | cons r rs ih =>
      obtain ⟨reply, s₁, replies, hr, hrs, rfl⟩ := Session.requests_cons_eq_some h
      by_cases hwait : r = .wait
      · subst hwait
        rw [patient_wait]
        obtain ⟨ok, rfl⟩ := reply_of_wait hr
        cases ok with
        | false =>
            rw [waitUntilAck_refused hw hr]
            rfl
        | true =>
            have htail := (List.mem_cons.mp hall).resolve_left (by decide)
            cases fuel with
            | zero => rfl
            | succ fuel =>
                obtain ⟨w₁, hw₁, hfirst⟩ := waitUntilAck_acknowledged hw hr
                rw [hfirst, Option.bind_some, ih hw₁ hrs htail]
                rfl
      · obtain ⟨-, hw₁⟩ := Wire.call_refines hw hr
        rcases List.mem_cons.mp hall with rfl | htail
        · exact absurd rfl (reply_ne_acknowledged hr hwait false)
        · rw [patient_of_ne_wait hwait, ih hw₁ hrs htail]
          rfl

/-! ## A measurement -/

/-- The requests for the bytes of a measurement. -/
def bufRequests : List Request :=
  [.take true, .take true, .take true, .take true, .take true, .take false, .stop]

/-- The requests of a measurement. -/
def measureRequests : List Request :=
  .start :: .send slaveAddr :: .wait :: .send (periodicModeHigh >>> 8).toUInt8 :: .wait ::
    .send (periodicModeHigh &&& 0xff).toUInt8 :: .wait :: .stop ::
    .start :: .send slaveAddr :: .wait :: .send (fetchData >>> 8).toUInt8 :: .wait ::
    .send (fetchData &&& 0xff).toUInt8 :: .wait ::
    .start :: .send (slaveAddr ||| 1) :: .wait :: bufRequests

/-- The byte that a call gave. -/
def byteAt (replies : List Reply) (i : Nat) : UInt8 :=
  match replies[i]? with
  | some (.byte byte) => byte
  | _ => 0

/-- The words that six bytes make, without those that check them. -/
def bufSample (replies : List Reply) : Sample :=
  ⟨word (byteAt replies 0) (byteAt replies 1), word (byteAt replies 3) (byteAt replies 4)⟩

/-- The words of a measurement. -/
def sampleOf (replies : List Reply) : Sample := bufSample (replies.drop 18)

theorem patient_bufRequests (fuel : Nat) (w : Wire σ) : ∃ b₀ b₁ b₂ b₃ b₄ b₅ w',
    readBuf d 6 w = ([b₀, b₁, b₂, b₃, b₄, b₅], w') ∧
      patient d fuel w bufRequests = some ([.byte b₀, .byte b₁, .byte b₂, .byte b₃, .byte b₄,
        .byte b₅, .done], w'.stop d) :=
  ⟨_, _, _, _, _, _, _, rfl, rfl⟩

theorem shtReadData_eq (fuel : Nat) (w : Wire σ) : shtReadData d fuel w =
    (waitUntilAck d fuel ((w.start d).sendByte d (slaveAddr ||| 1))).bind fun w =>
      (patient d fuel w bufRequests).map fun p => (bufSample p.1, p.2) := by
  refine congrArg (Option.bind _) (funext fun w => ?_)
  obtain ⟨b₀, b₁, b₂, b₃, b₄, b₅, w', hbuf, hpatient⟩ := patient_bufRequests (d := d) fuel w
  rw [hbuf, hpatient]
  rfl

theorem call_start (w : Wire σ) : w.call d .start = (.done, w.start d) := rfl

theorem call_send (txd : UInt8) (w : Wire σ) :
    w.call d (.send txd) = (.done, w.sendByte d txd) := rfl

theorem call_stop (w : Wire σ) : w.call d .stop = (.done, w.stop d) := rfl

theorem measure_eq (fuel : Nat) (w : Wire σ) : measure d fuel w =
    (patient d fuel w measureRequests).map fun p => (sampleOf p.1, p.2) := by
  simp only [measureRequests, patient_of_ne_wait, patient_wait, ne_eq, reduceCtorEq,
    not_false_eq_true, Option.map_bind, Option.map_map, Function.comp_def, measure,
    shtWriteMode, shtWriteReadCmd, shtReadData_eq, Option.bind_eq_bind, Option.bind_assoc,
    Option.pure_def, Option.bind_some, call_start, call_send, call_stop, sampleOf,
    List.drop_succ_cons, List.drop_zero]

/-- With any device for which the bus can run the requests of a measurement, a measurement ends just
when every byte is acknowledged at once, however long it waits.  It then gives the words that the
device sent: the bytes after each of them, which check it, are not looked at. -/
theorem measure_ends_iff {s : σ} {s' : Session σ} {replies : List Reply}
    (h : (Session.mk .free s).requests d measureRequests = some (replies, s')) :
    (AllAcknowledged replies → ∃ w, w.Shows s' ∧
      ∀ fuel, measure d (fuel + 1) (Wire.init s) = some (sampleOf replies, w)) ∧
    (¬ AllAcknowledged replies → ∀ fuel, measure d fuel (Wire.init s) = none) := by
  constructor
  · intro hall
    obtain ⟨w, hw, hmeasure⟩ := patient_acknowledged (Wire.init_shows s) h hall
    refine ⟨w, hw, fun fuel => ?_⟩
    rw [measure_eq, hmeasure]
    rfl
  · intro hall fuel
    rw [measure_eq, patient_refused (Wire.init_shows s) h hall]
    rfl

/-- A sensor that sends 0x6000 and 0x8000. -/
theorem measure_ends_iff_sends :
    let d : Device (Bool × Nat) := ⟨fun _ => (false, 0), id,
      fun s byte => (byte ∈ [0x88, 0x89, 0x27, 0x37, 0xe0, 0x00], (byte = 0x89, s.2)),
      fun s => if s.1 then [0x60, 0x00, 0x11, 0x80, 0x00, 0x22][s.2]? else none,
      fun s _ => (s.1, s.2 + 1)⟩
    ∃ w, ∀ fuel, measure d (fuel + 1) (Wire.init (false, 0)) = some (⟨0x6000, 0x8000⟩, w) := by
  intro d
  have hrequests : (Session.mk .free (false, 0)).requests d measureRequests =
      some ([.done, .done, .acknowledged true, .done, .acknowledged true, .done,
        .acknowledged true, .done, .done, .done, .acknowledged true, .done, .acknowledged true,
        .done, .acknowledged true, .done, .done, .acknowledged true, .byte 0x60, .byte 0x00, .byte 0x11,
        .byte 0x80, .byte 0x00, .byte 0x22, .done], ⟨.free, (true, 6)⟩) := by
    decide
  obtain ⟨w, -, hmeasure⟩ := (measure_ends_iff hrequests).1 (by decide)
  exact ⟨w, hmeasure⟩

end IotEdge.Sht
