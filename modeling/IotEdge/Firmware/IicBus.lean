import IotEdge.Lib.TwoWire
import IotEdge.Firmware.GpioIic

/-!
# The I2C driver and a device

The driver's routines, with a device behind the two lines: each pin the driver writes is seen by
the device, and what the driver reads is the level of the data line, which the device may hold
low.  The pins are those of `GpioIic.Bus` (`call_bus`).

`Wire.of` is the bus with the device in a given phase, and for each write there is one equation
about it.  A routine is a chain of writes, so its effect is a chain of these equations.
`calls_refines` puts the routines together: for any device, and any calls in an order that the bus
allows, the driver gets what the bus at the level of bytes gives it.
-/

open TwoWire

namespace IotEdge.IicBus

open GpioIic (Bus Routine)

universe u

/-- The pins of the driver, and the device that sees them. -/
structure Wire (σ : Type u) where
  bus : Bus
  follower : Follower σ

variable {σ : Type u} (d : Device σ)

namespace Wire

/-! ## The lines -/

/-- SCL is written. -/
def setScl (w : Wire σ) (level : Bool) : Wire σ :=
  ⟨w.bus.setScl level, w.follower.follow d level w.bus.sda⟩

/-- SDA is written. -/
def setSda (routine : Routine) (w : Wire σ) (level : Bool) : Wire σ :=
  ⟨w.bus.setSda routine level, w.follower.follow d w.bus.scl level⟩

/-- `IIC_Sda_In`. -/
def sdaIn (routine : Routine) (w : Wire σ) : Wire σ :=
  ⟨w.bus.sdaIn routine, w.follower.follow d w.bus.scl true⟩

/-- `IIC_Sda_Out`. -/
def sdaOut (w : Wire σ) : Wire σ := { w with bus := w.bus.sdaOut }

/-- `IIC_SDA_STATUS`. -/
def status (w : Wire σ) : Bool := w.follower.level w.bus.sda

/-! ## The routines -/

/-- `IIC_Start`. -/
def start (w : Wire σ) : Wire σ :=
  let w := w.sdaOut
  let w := w.setSda d .start true
  let w := w.setScl d true
  let w := w.setSda d .start false
  w.setScl d false

/-- `IIC_Stop`. -/
def stop (w : Wire σ) : Wire σ :=
  let w := w.sdaOut
  let w := w.setScl d false
  let w := w.setSda d .stop false
  let w := w.setScl d true
  w.setSda d .stop true

/-- The loop of `IIC_Wait_Ack`. -/
def waitLoop (ucErrTime : Nat) (w : Wire σ) : UInt8 × Wire σ :=
  if w.status then
    if ucErrTime + 1 > 250 then (1, w.stop d) else waitLoop (ucErrTime + 1) w
  else (0, w.setScl d false)
termination_by 250 - ucErrTime

/-- `IIC_Wait_Ack`. -/
def waitAck (w : Wire σ) : UInt8 × Wire σ :=
  let w := w.sdaIn d .waitAck
  let w := w.setScl d false
  let w := w.setScl d true
  waitLoop d 0 w

/-- `IIC_Ack` and `IIC_NAck` drive SDA low and high. -/
def acknowledge (routine : Routine) (level : Bool) (w : Wire σ) : Wire σ :=
  let w := w.setScl d false
  let w := w.sdaOut
  let w := w.setSda d routine level
  let w := w.setScl d true
  w.setScl d false

/-- `IIC_Ack`. -/
def ack (w : Wire σ) : Wire σ := w.acknowledge d .ack false

/-- `IIC_NAck`. -/
def nack (w : Wire σ) : Wire σ := w.acknowledge d .nack true

/-- The loop of `IIC_Send_Byte`, for the bits that are left. -/
def sendBits : Nat → UInt8 → Wire σ → Wire σ
  | 0, _, w => w
  | bits + 1, txd, w =>
      let w := w.setScl d false
      let w := w.setSda d .sendByte ((txd &&& 0x80) >>> 7 ≠ 0)
      sendBits bits (txd <<< 1) (w.setScl d true)

/-- `IIC_Send_Byte`. -/
def sendByte (txd : UInt8) (w : Wire σ) : Wire σ := (sendBits d 8 txd w.sdaOut).setScl d false

/-- The loop of `IIC_Recv_Byte`. -/
def recvBits : Nat → UInt8 → Wire σ → UInt8 × Wire σ
  | 0, receive, w => (receive, w)
  | bits + 1, receive, w =>
      let w := (w.setScl d false).setScl d true
      let receive := receive <<< 1
      recvBits bits (if w.status then receive ||| 1 else receive) w

/-- `IIC_Recv_Byte`. -/
def recvByte (ack : UInt8) (w : Wire σ) : UInt8 × Wire σ :=
  let (receive, w) := recvBits d 8 0 (w.sdaIn d .recvByte)
  let w := w.setScl d false
  (receive, if ack = 0 then w.nack d else w.ack d)

/-- The routine that a request is made with. -/
def call (w : Wire σ) : Request → Reply × Wire σ
  | .start => (.done, w.start d)
  | .stop => (.done, w.stop d)
  | .send txd => (.done, w.sendByte d txd)
  | .wait => let (failed, w) := w.waitAck d; (.acknowledged (failed = 0), w)
  | .take ack => let (receive, w) := w.recvByte d (if ack then 1 else 0); (.byte receive, w)

/-- Calls one after the other, with what they give. -/
def calls (w : Wire σ) : List Request → List Reply × Wire σ
  | [] => ([], w)
  | r :: rs =>
      let (reply, w) := w.call d r
      let (replies, w) := w.calls rs
      (reply :: replies, w)

end Wire

/-! ## The pins -/

/-- The call of the driver, when the data line is read as `status` says. -/
def callOf (status : Nat → Bool) : Request → GpioIic.Call
  | .start => .start
  | .stop => .stop
  | .send txd => .sendByte txd
  | .wait => .waitAck status
  | .take ack => .recvByte (if ack then 1 else 0) status

namespace Wire

@[simp] theorem setScl_bus (w : Wire σ) (level : Bool) :
    (w.setScl d level).bus = w.bus.setScl level := rfl

@[simp] theorem setSda_bus (routine : Routine) (w : Wire σ) (level : Bool) :
    (w.setSda d routine level).bus = w.bus.setSda routine level := rfl

@[simp] theorem sdaIn_bus (routine : Routine) (w : Wire σ) :
    (w.sdaIn d routine).bus = w.bus.sdaIn routine := rfl

@[simp] theorem sdaOut_bus (w : Wire σ) : w.sdaOut.bus = w.bus.sdaOut := rfl

theorem stop_bus (w : Wire σ) : (w.stop d).bus = w.bus.stop := rfl

theorem acknowledge_bus (routine : Routine) (level : Bool) (w : Wire σ) :
    (w.acknowledge d routine level).bus = w.bus.acknowledge routine level := rfl

/-- The data line does not move while the driver reads it. -/
theorem waitLoop_bus (ucErrTime : Nat) (w : Wire σ) :
    ((waitLoop d ucErrTime w).1, (waitLoop d ucErrTime w).2.bus) =
      Bus.waitLoop (fun _ => w.status) ucErrTime w.bus := by
  fun_induction waitLoop d ucErrTime w with
  | case1 ucErrTime hstatus hlast =>
      rw [Bus.waitLoop, if_pos hstatus, if_pos hlast, stop_bus]
  | case2 ucErrTime hstatus hlast ih =>
      rw [Bus.waitLoop, if_pos hstatus, if_neg hlast]
      exact ih
  | case3 ucErrTime hstatus =>
      rw [Bus.waitLoop, if_neg hstatus, setScl_bus]

theorem sendBits_bus (bits : Nat) (txd : UInt8) (w : Wire σ) :
    (sendBits d bits txd w).bus = Bus.sendBits bits txd w.bus := by
  induction bits generalizing txd w with
  | zero => rfl
  | succ bits ih => rw [sendBits, ih, Bus.sendBits, setScl_bus, setSda_bus, setScl_bus]

/-- Of what the driver reads, only the bits that are left matter. -/
theorem recvBits_congr {status status' : Nat → Bool} (bits : Nat)
    (h : ∀ i, 8 - bits ≤ i → status i = status' i) (hbits : bits ≤ 8) (receive : UInt8) (b : Bus) :
    Bus.recvBits status bits receive b = Bus.recvBits status' bits receive b := by
  induction bits generalizing receive b with
  | zero => rfl
  | succ bits ih =>
      rw [Bus.recvBits, Bus.recvBits, h (7 - bits) (by omega)]
      exact ih (fun i hi => h i (by omega)) (by omega) _ _

/-- There is a reading of the data line that gives the same bits. -/
theorem recvBits_bus (bits : Nat) (hbits : bits ≤ 8) (receive : UInt8) (w : Wire σ) :
    ∃ status, ((recvBits d bits receive w).1, (recvBits d bits receive w).2.bus) =
      Bus.recvBits status bits receive w.bus := by
  induction bits generalizing receive w with
  | zero => exact ⟨fun _ => true, rfl⟩
  | succ bits ih =>
      let w' := (w.setScl d false).setScl d true
      obtain ⟨status, hstatus⟩ :=
        ih (by omega) (if w'.status then receive <<< 1 ||| 1 else receive <<< 1) w'
      refine ⟨fun i => if i = 7 - bits then w'.status else status i, ?_⟩
      rw [recvBits, Bus.recvBits, if_pos rfl]
      refine hstatus.trans (recvBits_congr bits (fun i hi => ?_) (by omega) _ _)
      rw [if_neg (by omega)]

/-- The driver's pins move as they do under some reading of the data line. -/
theorem call_bus (w : Wire σ) (r : Request) :
    ∃ status, (w.call d r).2.bus = w.bus.call (callOf status r) := by
  cases r with
  | start => exact ⟨fun _ => true, rfl⟩
  | stop => exact ⟨fun _ => true, rfl⟩
  | send txd =>
      refine ⟨fun _ => true, ?_⟩
      change (sendBits d 8 txd w.sdaOut).bus.setScl false = (Bus.sendBits 8 txd _).setScl false
      rw [sendBits_bus, sdaOut_bus]
  | wait =>
      exact ⟨_, congrArg Prod.snd (waitLoop_bus d 0
        (((w.sdaIn d .waitAck).setScl d false).setScl d true))⟩
  | take ack =>
      obtain ⟨status, hstatus⟩ := recvBits_bus d 8 (Nat.le_refl 8) 0 (w.sdaIn d .recvByte)
      have hbus := congrArg Prod.snd hstatus
      refine ⟨status, ?_⟩
      cases ack with
      | false =>
          change (((recvBits d 8 0 (w.sdaIn d .recvByte)).2.setScl d false).nack d).bus =
            (((Bus.recvBits status 8 0 (w.bus.sdaIn .recvByte)).2.setScl false).nack)
          rw [nack, acknowledge_bus, setScl_bus]
          exact congrArg (fun b : Bus => (b.setScl false).nack) hbus
      | true =>
          change (((recvBits d 8 0 (w.sdaIn d .recvByte)).2.setScl d false).ack d).bus =
            (((Bus.recvBits status 8 0 (w.bus.sdaIn .recvByte)).2.setScl false).ack)
          rw [ack, acknowledge_bus, setScl_bus]
          exact congrArg (fun b : Bus => (b.setScl false).ack) hbus

/-! ## One write of a pin -/

/-- The device has followed the pins, and is in this phase. -/
def of (b : Bus) (phase : Phase) (s : σ) : Wire σ := ⟨b, ⟨b.scl, b.sda && !phase.low, phase, s⟩⟩

variable {d} {b : Bus} {phase : Phase} {s : σ}

@[simp] theorem status_of : (of b phase s).status = (b.sda && !phase.low) := rfl

@[simp] theorem sdaOut_of : (of b phase s).sdaOut = of b.sdaOut phase s := rfl

theorem low_rise (phase : Phase) (data : Bool) : (phase.rise data).low = phase.low := by
  cases phase with
  | awaiting acknowledge => cases acknowledge <;> rfl
  | idle | receiving | acknowledging | sending => rfl

theorem setScl_of_rise (h : b.scl = false) : (of b phase s).setScl d true =
    of (b.setScl true) (phase.rise (b.sda && !phase.low)) s := by
  obtain ⟨scl, sda, input, conditions⟩ := b
  subst h
  rw [of, of, low_rise]
  rfl

theorem setScl_of_fall (h : b.scl = true) : (of b phase s).setScl d false =
    of (b.setScl false) (fall d s phase).1 (fall d s phase).2 := by
  obtain ⟨scl, sda, input, conditions⟩ := b
  subst h
  rfl

/-- The clock is low already. -/
theorem setScl_of_low (h : b.scl = false) :
    (of b phase s).setScl d false = of (b.setScl false) phase s := by
  obtain ⟨scl, sda, input, conditions⟩ := b
  subst h
  rfl

/-- The clock is high already. -/
theorem setScl_of_high (h : b.scl = true) :
    (of b phase s).setScl d true = of (b.setScl true) phase s := by
  obtain ⟨scl, sda, input, conditions⟩ := b
  subst h
  exact congrArg (Wire.mk _) (Follower.follow_high rfl rfl)

/-- SDA moves while SCL is low. -/
theorem setSda_of_low (h : b.scl = false) (routine : Routine) (level : Bool) :
    (of b phase s).setSda d routine level = of (b.setSda routine level) phase s := by
  obtain ⟨scl, sda, input, conditions⟩ := b
  subst h
  rfl

/-- SDA is written, and stays. -/
theorem setSda_of_same (h : b.scl = true) {level : Bool} (hlevel : b.sda = level)
    (routine : Routine) :
    (of b phase s).setSda d routine level = of (b.setSda routine level) phase s := by
  obtain ⟨scl, sda, input, conditions⟩ := b
  subst h hlevel
  exact congrArg (Wire.mk _) (Follower.follow_high rfl rfl)

theorem setSda_of_start (h : b.scl = true) (hsda : b.sda = true) (hlow : phase.low = false)
    (routine : Routine) : (of b phase s).setSda d routine false =
      of (b.setSda routine false) (.receiving []) (d.start s) := by
  obtain ⟨scl, sda, input, conditions⟩ := b
  subst h hsda
  exact congrArg (Wire.mk _) (Follower.follow_start rfl (by rw [of, hlow]; rfl) rfl)

theorem setSda_of_stop (h : b.scl = true) (hsda : b.sda = false) (hlow : phase.low = false)
    (routine : Routine) : (of b phase s).setSda d routine true =
      of (b.setSda routine true) .idle (d.stop s) := by
  obtain ⟨scl, sda, input, conditions⟩ := b
  subst h hsda
  exact congrArg (Wire.mk _)
    (Follower.follow_stop rfl rfl (by rw [Follower.level, of, hlow]; rfl))

/-- The device does nothing when the clock falls. -/
theorem setScl_of_hold (h : fall d s phase = (phase, s)) :
    (of b phase s).setScl d false = of (b.setScl false) phase s := by
  cases hscl : b.scl with
  | false => exact setScl_of_low hscl
  | true => rw [setScl_of_fall hscl, h]

/-- SDA goes high when it may. -/
theorem setSda_of_idle (h : b.Idle) (routine : Routine) :
    (of b phase s).setSda d routine true = of (b.setSda routine true) phase s := by
  cases hscl : b.scl with
  | false => exact setSda_of_low hscl routine true
  | true => exact setSda_of_same hscl (h hscl) routine

theorem sdaIn_of (h : b.Idle) (routine : Routine) :
    (of b phase s).sdaIn d routine = of (b.sdaIn routine) phase s := by
  have hsda := @setSda_of_idle σ d b phase s h routine
  exact congrArg (fun w : Wire σ => Wire.mk (b.sdaIn routine) w.follower) hsda

/-! ## One routine -/

/-- SDA falls while SCL is high. -/
theorem start_of_high (hscl : b.scl = true) (hsda : b.sda = true) (hlow : phase.low = false) :
    ((of b phase s).setSda d .start false).setScl d false =
      of ((b.setSda .start false).setScl false) (.receiving []) (d.start s) := by
  rw [setSda_of_start hscl hsda hlow, setScl_of_hold rfl]

theorem start_of (h : b.Idle) (hlow : phase.low = false) :
    (of b phase s).start d = of b.start (.receiving []) (d.start s) := by
  have hout : b.sdaOut.Idle := h
  rw [start, sdaOut_of, setSda_of_idle hout]
  cases hscl : (b.sdaOut.setSda .start true).scl with
  | false =>
      rw [setScl_of_rise hscl, start_of_high rfl rfl (by rw [low_rise, hlow])]
      rfl
  | true =>
      rw [setScl_of_high hscl, start_of_high rfl rfl hlow]
      rfl

theorem stop_of (hlow : phase.low = false) (hfall : b.scl = true → fall d s phase = (phase, s)) :
    (of b phase s).stop d = of b.stop .idle (d.stop s) := by
  have hscl : (of b.sdaOut phase s).setScl d false = of (b.sdaOut.setScl false) phase s := by
    cases hb : b.sdaOut.scl with
    | false => exact setScl_of_low hb
    | true => exact setScl_of_hold (hfall hb)
  rw [stop, sdaOut_of, hscl, setSda_of_low rfl, setScl_of_rise rfl,
    setSda_of_stop rfl rfl (by rw [low_rise, hlow])]
  rfl

/-- No acknowledge comes. -/
theorem waitLoop_of_high {w : Wire σ} (h : w.status = true) {ucErrTime : Nat}
    (hle : ucErrTime ≤ 250) : waitLoop d ucErrTime w = (1, w.stop d) := by
  induction hle using Nat.decreasingInduction with
  | self => rw [waitLoop, if_pos h, if_pos (by omega)]
  | of_succ n hlt ih => rw [waitLoop, if_pos h, if_neg (by omega), ih]

/-- The device acknowledges, and goes on. -/
theorem waitAck_of_acknowledging (h : b.scl = false) :
    ∃ b', b'.scl = false ∧ (of b .acknowledging s).waitAck d = (0, of b' (turnOf d s) s) := by
  refine ⟨(((b.sdaIn .waitAck).setScl false).setScl true).setScl false, rfl, ?_⟩
  have hin : (b.sdaIn .waitAck).scl = false := h
  rw [waitAck, sdaIn_of (GpioIic.Bus.idle_of_low h), setScl_of_low hin, setScl_of_rise rfl,
    waitLoop, if_neg (by rw [status_of]; exact Bool.false_ne_true), setScl_of_fall rfl]
  rfl

/-- The device does not acknowledge, and the transfer stops. -/
theorem waitAck_of_silent (h : b.Idle) (hlow : phase.low = false)
    (hfall : fall d s phase = (phase, s))
    (hrise : fall d s (phase.rise true) = (phase.rise true, s)) :
    ∃ b', (b'.scl = true ∧ b'.sda = true) ∧
      (of b phase s).waitAck d = (1, of b' .idle (d.stop s)) := by
  refine ⟨(((b.sdaIn .waitAck).setScl false).setScl true).stop, ⟨rfl, rfl⟩, ?_⟩
  have hstatus : (true && !phase.low) = true := by rw [hlow]; rfl
  rw [waitAck, sdaIn_of h, setScl_of_hold hfall, setScl_of_rise rfl]
  change waitLoop d 0 (of _ (phase.rise (true && !phase.low)) s) = _
  rw [hstatus, waitLoop_of_high (by rw [status_of, low_rise]; exact hstatus) (Nat.zero_le _),
    stop_of (by rw [low_rise, hlow]) fun _ => hrise]

/-! ## Bits -/

/-- The device takes the bits that are sent. -/
theorem sendBits_of_receiving (n : Nat) (txd : UInt8) (bits : List Bool)
    (h : bits.length + n ≤ 8) : sendBits d n txd (of b (.receiving bits) s) =
      of (b.sendBits n txd) (.receiving (bits ++ bitsOf n txd)) s := by
  induction n generalizing txd b bits with
  | zero =>
      rw [sendBits, bitsOf, List.append_nil]
      rfl
  | succ n ih =>
      have hfall : fall d s (.receiving bits) = (.receiving bits, s) := by
        rw [fall, if_neg (by omega)]
      rw [sendBits, setScl_of_hold hfall, setSda_of_low rfl, setScl_of_rise rfl]
      change sendBits d n _ (of _ (.receiving (bits ++ [_ && true])) s) = _
      rw [ih _ _ (by rw [List.length_append, List.length_singleton]; omega), Bool.and_true,
        List.append_assoc]
      rfl

/-- A device that is not addressed takes no bits. -/
theorem sendBits_of_idle (n : Nat) (txd : UInt8) :
    sendBits d n txd (of b .idle s) = of (b.sendBits n txd) .idle s := by
  induction n generalizing txd b with
  | zero => rfl
  | succ n ih =>
      rw [sendBits, setScl_of_hold rfl, setSda_of_low rfl, setScl_of_rise rfl]
      exact ih _

theorem sendByte_of_listening (txd : UInt8) :
    ∃ b', b'.scl = false ∧ (of b (.receiving []) s).sendByte d txd =
      of b' (if (d.receive s txd).1 then .acknowledging else .idle) (d.receive s txd).2 := by
  refine ⟨b.sendByte txd, rfl, ?_⟩
  rw [sendByte, sdaOut_of, sendBits_of_receiving 8 txd [] (by simp), List.nil_append,
    setScl_of_fall rfl, fall, if_pos (length_bitsOf 8 txd), byteOf_bitsOf]
  obtain ⟨acknowledge, s'⟩ := d.receive s txd
  cases acknowledge with
  | true => rfl
  | false => rfl

theorem sendByte_of_idle (txd : UInt8) :
    (of b .idle s).sendByte d txd = of (b.sendByte txd) .idle s := by
  rw [sendByte, sdaOut_of, sendBits_of_idle, setScl_of_hold rfl]
  rfl

/-- The bits that are left are taken while the clock goes on. -/
theorem recvBits_of_sending (hscl : b.scl = true) (hsda : b.sda = true) (bit : Bool)
    (bits : List Bool) (receive : UInt8) :
    recvBits d bits.length receive (of b (.sending (bit :: bits)) s) =
      (bits.foldl shiftIn receive,
        of b (.sending [(bit :: bits).getLast (List.cons_ne_nil _ _)]) s) := by
  obtain ⟨scl, sda, input, conditions⟩ := b
  subst hscl hsda
  induction bits generalizing bit receive with
  | nil => rfl
  | cons bit' bits ih =>
      rw [List.length_cons, recvBits, setScl_of_fall rfl, setScl_of_rise rfl]
      change recvBits d bits.length (if (true && !!bit') = true then _ else _) (of _ _ s) = _
      rw [Bool.not_not, Bool.true_and]
      exact ih bit' (shiftIn receive bit')

/-- The lines stay high for a driver that nobody answers. -/
theorem recvBits_of_idle (hsda : b.sda = true) (bits : Nat) (receive : UInt8) :
    ∃ b', b'.sda = true ∧ recvBits d bits receive (of b .idle s) =
      ((List.replicate bits true).foldl shiftIn receive, of b' .idle s) := by
  induction bits generalizing receive b with
  | zero => exact ⟨b, hsda, rfl⟩
  | succ bits ih =>
      obtain ⟨b', hsda', hrecv⟩ := @ih ((b.setScl false).setScl true) hsda (receive <<< 1 ||| 1)
      refine ⟨b', hsda', ?_⟩
      have hstatus : (of ((b.setScl false).setScl true) .idle s).status = true := by
        rw [status_of]
        exact congrArg (· && true) hsda
      rw [recvBits, setScl_of_hold rfl, setScl_of_rise rfl]
      change recvBits d bits (if (of _ .idle s).status then _ else _) (of _ .idle s) = _
      rw [hstatus, if_pos rfl, hrecv]
      rfl

/-- The acknowledge of the driver. -/
theorem acknowledge_of_awaiting (routine : Routine) (level : Bool) (h : b.scl = false) :
    ∃ b', b'.scl = false ∧ (of b (.awaiting none) s).acknowledge d routine level =
      of b' (if level then .idle else turnOf d (d.sent s true)) (d.sent s !level) := by
  refine ⟨b.acknowledge routine level, rfl, ?_⟩
  rw [acknowledge, setScl_of_low h, sdaOut_of, setSda_of_low rfl, setScl_of_rise rfl,
    setScl_of_fall rfl]
  cases level with
  | true => rfl
  | false => rfl

theorem acknowledge_of_idle (routine : Routine) (level : Bool) :
    (of b .idle s).acknowledge d routine level = of (b.acknowledge routine level) .idle s := by
  rw [acknowledge, setScl_of_hold rfl, sdaOut_of, setSda_of_low rfl, setScl_of_rise rfl,
    setScl_of_hold rfl]
  rfl

/-- The driver takes the byte that the device sends. -/
theorem recvBits_of_byte (h : b.scl = false) (byte : UInt8) :
    recvBits d 8 0 ((of b (.sending (bitsOf 8 byte)) s).sdaIn d .recvByte) =
      (byte, of (((b.sdaIn .recvByte).setScl false).setScl true)
        (.sending [(bitsOf 8 byte).getLast (List.cons_ne_nil _ _)]) s) := by
  let bit : Bool := (byte &&& 0x80) >>> 7 ≠ 0
  have hin : (b.sdaIn .recvByte).scl = false := h
  have hbyte : (bitsOf 7 (byte <<< 1)).foldl shiftIn (shiftIn 0 bit) = byte := byteOf_bitsOf byte
  have hrest := recvBits_of_sending (d := d) (s := s)
    (b := ((b.sdaIn .recvByte).setScl false).setScl true) rfl rfl bit (bitsOf 7 (byte <<< 1))
    (shiftIn 0 bit)
  rw [length_bitsOf, hbyte] at hrest
  rw [sdaIn_of (GpioIic.Bus.idle_of_low h), recvBits, setScl_of_low hin, setScl_of_rise rfl]
  change recvBits d 7 (if (true && !!bit) = true then _ else _) (of _ _ s) = _
  rw [Bool.not_not, Bool.true_and]
  exact hrest

theorem recvByte_of_sending (h : b.scl = false) (byte : UInt8) (ack : Bool) :
    ∃ b', b'.scl = false ∧
      (of b (.sending (bitsOf 8 byte)) s).recvByte d (if ack then 1 else 0) =
        (byte, of b' (if ack then turnOf d (d.sent s true) else .idle) (d.sent s ack)) := by
  let b₁ := (((b.sdaIn .recvByte).setScl false).setScl true).setScl false
  rw [recvByte, recvBits_of_byte h]
  dsimp only
  rw [setScl_of_fall rfl]
  cases ack with
  | false =>
      obtain ⟨b', hscl, heq⟩ := acknowledge_of_awaiting (d := d) (s := s) (b := b₁) .nack true rfl
      exact ⟨b', hscl, congrArg (Prod.mk byte) heq⟩
  | true =>
      obtain ⟨b', hscl, heq⟩ := acknowledge_of_awaiting (d := d) (s := s) (b := b₁) .ack false rfl
      exact ⟨b', hscl, congrArg (Prod.mk byte) heq⟩

/-- Nobody sends, and the driver reads ones. -/
theorem recvByte_of_idle (h : b.Idle) (ack : UInt8) :
    ∃ b', b'.scl = false ∧ (of b .idle s).recvByte d ack = (0xff, of b' .idle s) := by
  obtain ⟨b₁, hsda, hrecv⟩ :=
    recvBits_of_idle (d := d) (s := s) (b := b.sdaIn .recvByte) rfl 8 0
  rw [recvByte, sdaIn_of h, hrecv]
  change ∃ b' : Bus, b'.scl = false ∧ (_, if ack = 0 then _ else _) = _
  rw [setScl_of_hold rfl, nack, Wire.ack, acknowledge_of_idle, acknowledge_of_idle]
  split
  next => exact ⟨_, rfl, rfl⟩
  next => exact ⟨_, rfl, rfl⟩

/-! ## Calls -/

/-- The lines in this turn. -/
def Fits (turn : Turn) (b : Bus) : Prop :=
  match turn with
  | .free => b.scl = true ∧ b.sda = true
  | _ => b.scl = false

/-- The driver and the device are between two calls, as the session says. -/
def Shows (w : Wire σ) (s : Session σ) : Prop :=
  ∃ b, Fits s.turn b ∧ w = of b s.turn.phase s.device

theorem Fits.idle {turn : Turn} (h : Fits turn b) : b.Idle := by
  cases turn with
  | free => exact GpioIic.Bus.idle_of_high h.2
  | listens | acknowledges | sends | deaf => exact GpioIic.Bus.idle_of_low h

/-- The device goes on after an acknowledged byte. -/
theorem shows_next (h : b.scl = false) :
    (of b (turnOf d s) s).Shows ⟨Session.next d s, s⟩ := by
  refine ⟨b, ?_, by rw [Session.phase_next]⟩
  rw [Session.next]
  cases d.sends s with
  | none => exact h
  | some byte => exact h

theorem start_refines {turn : Turn} {reply : Reply} {s' : Session σ} (hb : Fits turn b)
    (h : (Session.mk turn s).request d .start = some (reply, s')) :
    ((of b turn.phase s).call d .start).1 = reply ∧
      ((of b turn.phase s).call d .start).2.Shows s' := by
  cases turn with
  | acknowledges | sends => cases h
  | free | listens | deaf =>
      cases h
      exact ⟨rfl, b.start, rfl, start_of hb.idle rfl⟩

theorem stop_refines {turn : Turn} {reply : Reply} {s' : Session σ}
    (h : (Session.mk turn s).request d .stop = some (reply, s')) :
    ((of b turn.phase s).call d .stop).1 = reply ∧
      ((of b turn.phase s).call d .stop).2.Shows s' := by
  cases turn with
  | acknowledges | sends => cases h
  | free | listens | deaf =>
      cases h
      exact ⟨rfl, b.stop, ⟨rfl, rfl⟩, stop_of rfl fun _ => rfl⟩

theorem send_refines {turn : Turn} {txd : UInt8} {reply : Reply} {s' : Session σ}
    (h : (Session.mk turn s).request d (.send txd) = some (reply, s')) :
    ((of b turn.phase s).call d (.send txd)).1 = reply ∧
      ((of b turn.phase s).call d (.send txd)).2.Shows s' := by
  cases turn with
  | acknowledges | sends => cases h
  | free | deaf =>
      cases h
      exact ⟨rfl, b.sendByte txd, rfl, sendByte_of_idle txd⟩
  | listens =>
      obtain ⟨b', hb', hsend⟩ := sendByte_of_listening (d := d) (b := b) (s := s) txd
      rw [Session.request] at h
      dsimp only at h
      split at h
      next device hreceive =>
        rw [hreceive] at hsend
        cases h
        exact ⟨rfl, b', hb', hsend⟩
      next device hreceive =>
        rw [hreceive] at hsend
        cases h
        exact ⟨rfl, b', hb', hsend⟩

theorem wait_refines {turn : Turn} {reply : Reply} {s' : Session σ} (hb : Fits turn b)
    (h : (Session.mk turn s).request d .wait = some (reply, s')) :
    ((of b turn.phase s).call d .wait).1 = reply ∧
      ((of b turn.phase s).call d .wait).2.Shows s' := by
  cases turn with
  | sends => cases h
  | acknowledges =>
      cases h
      obtain ⟨b', hb', hwait⟩ := waitAck_of_acknowledging (d := d) (s := s) hb
      rw [call, Turn.phase, hwait]
      exact ⟨rfl, shows_next hb'⟩
  | free | deaf =>
      cases h
      obtain ⟨b', hb', hwait⟩ := @waitAck_of_silent σ d b .idle s hb.idle rfl rfl rfl
      rw [call, Turn.phase, hwait]
      exact ⟨rfl, b', hb', rfl⟩
  | listens =>
      cases h
      obtain ⟨b', hb', hwait⟩ := @waitAck_of_silent σ d b (.receiving []) s hb.idle rfl rfl rfl
      rw [call, Turn.phase, hwait]
      exact ⟨rfl, b', hb', rfl⟩

theorem take_refines {turn : Turn} {ack : Bool} {reply : Reply} {s' : Session σ}
    (hb : Fits turn b) (h : (Session.mk turn s).request d (.take ack) = some (reply, s')) :
    ((of b turn.phase s).call d (.take ack)).1 = reply ∧
      ((of b turn.phase s).call d (.take ack)).2.Shows s' := by
  cases turn with
  | acknowledges | listens => cases h
  | sends byte =>
      cases h
      obtain ⟨b', hb', htake⟩ := recvByte_of_sending (d := d) (s := s) hb byte ack
      rw [call, Turn.phase, htake]
      refine ⟨rfl, ?_⟩
      cases ack with
      | false => exact ⟨b', hb', rfl⟩
      | true => exact shows_next hb'
  | free | deaf =>
      cases h
      obtain ⟨b', hb', htake⟩ := recvByte_of_idle (d := d) (s := s) hb.idle (if ack then 1 else 0)
      rw [call, Turn.phase, htake]
      exact ⟨rfl, b', hb', rfl⟩

/-- A call gives what the request gives, and leaves the wire as the request leaves the session. -/
theorem call_refines {w : Wire σ} {s s' : Session σ} {r : Request} {reply : Reply}
    (hw : w.Shows s) (h : s.request d r = some (reply, s')) :
    (w.call d r).1 = reply ∧ (w.call d r).2.Shows s' := by
  obtain ⟨turn, device⟩ := s
  obtain ⟨b, hb, rfl⟩ := hw
  cases r with
  | start => exact start_refines hb h
  | stop => exact stop_refines h
  | send txd => exact send_refines h
  | wait => exact wait_refines hb h
  | take ack => exact take_refines hb h

/-- Calls give what the requests give, one after the other. -/
theorem calls_refines {w : Wire σ} {s s' : Session σ} {rs : List Request} {replies : List Reply}
    (hw : w.Shows s) (h : s.requests d rs = some (replies, s')) :
    (w.calls d rs).1 = replies ∧ (w.calls d rs).2.Shows s' := by
  induction rs generalizing w s replies with
  | nil =>
      cases h
      exact ⟨rfl, hw⟩
  | cons r rs ih =>
      obtain ⟨reply, s₁, replies', hr, hrs, rfl⟩ := Session.requests_cons_eq_some h
      obtain ⟨hreply, hw₁⟩ := call_refines hw hr
      obtain ⟨hreplies, hw'⟩ := ih hw₁ hrs
      exact ⟨congrArg₂ List.cons hreply hreplies, hw'⟩

/-- The pins are those of the driver alone, under the same calls. -/
theorem calls_bus (w : Wire σ) (rs : List Request) :
    ∃ readings : List (Nat → Bool), readings.length = rs.length ∧
      (w.calls d rs).2.bus = (List.zipWith callOf readings rs).foldl Bus.call w.bus := by
  induction rs generalizing w with
  | nil => exact ⟨[], rfl, rfl⟩
  | cons r rs ih =>
      obtain ⟨status, hcall⟩ := call_bus d w r
      obtain ⟨readings, hlength, hbus⟩ := ih (w.call d r).2
      refine ⟨status :: readings, congrArg Nat.succ hlength, ?_⟩
      rw [List.zipWith_cons_cons, List.foldl_cons, ← hcall, ← hbus]
      rfl

/-- What `IIC_Init` leaves. -/
def init (s : σ) : Wire σ := of Bus.init .idle s

theorem init_shows (s : σ) : (init s).Shows ⟨.free, s⟩ := ⟨Bus.init, ⟨rfl, rfl⟩, rfl⟩

end Wire

/-- Whatever the device is, calls in an order that the bus allows give the driver the replies of
the bus at the level of bytes, and leave the device as that does, whatever was sent and read.  The
pins move as they do under the same calls of the driver alone, with some readings of the data
line. -/
theorem driver_refines_session {s : σ} {s' : Session σ} {rs : List Request} {replies : List Reply}
    (h : (Session.mk .free s).requests d rs = some (replies, s')) :
    ((Wire.init s).calls d rs).1 = replies ∧ ((Wire.init s).calls d rs).2.Shows s' ∧
      ∃ readings : List (Nat → Bool), readings.length = rs.length ∧
        ((Wire.init s).calls d rs).2.bus =
          (List.zipWith callOf readings rs).foldl Bus.call Bus.init := by
  obtain ⟨hreplies, hshows⟩ := Wire.calls_refines (Wire.init_shows s) h
  exact ⟨hreplies, hshows, Wire.calls_bus _ rs⟩

/-- A device that takes every byte takes this one. -/
theorem driver_refines_session_once :
    let d : Device UInt8 := ⟨id, id, fun _ byte => (true, byte), fun _ => none, fun s _ => s⟩
    ((Wire.init 0).calls d [.start, .send 0xa5, .wait, .stop]).1 =
      [.done, .done, .acknowledged true, .done] :=
  (driver_refines_session _ (Session.requests_of_cons rfl <|
    Session.requests_of_cons (Session.send_accepted rfl) <|
    Session.requests_of_cons (Session.wait_listens rfl) <| Session.requests_of_cons rfl rfl)).1

end IotEdge.IicBus
