import Mathlib

/-!
# The bit-banged I2C bus

The driver moves the two lines of the bus by hand.  While SCL is high a falling edge of SDA
starts a transfer and a rising edge stops it, so SDA may move only while SCL is low.

Between two calls SDA is high if SCL is high (`Bus.Idle`).  Every routine keeps this, and makes
the edges that its name promises (`line_discipline`).
-/

namespace IotEdge.GpioIic

/-! ## The lines -/

inductive Routine where
  | start
  | stop
  | waitAck
  | ack
  | nack
  | sendByte
  | recvByte
  deriving DecidableEq, Repr

inductive Edge where
  | falling
  | rising
  deriving DecidableEq, Repr

/-- A change of SDA while SCL is high, and the routine that made it. -/
structure Condition where
  routine : Routine
  edge : Edge
  deriving DecidableEq, Repr

/-- The pins of the master, and the conditions it made on the bus. -/
structure Bus where
  /-- `IIC_SCL`. -/
  scl : Bool
  /-- `IIC_SDA`: the latch.  As an output the pin is driven to it, as an input pulled to it. -/
  sda : Bool
  /-- SDA is an input. -/
  input : Bool
  conditions : List Condition
  deriving DecidableEq, Repr

namespace Bus

/-- What `IIC_Init` leaves. -/
def init : Bus := ⟨true, true, false, []⟩

/-- SCL is written. -/
def setScl (b : Bus) (level : Bool) : Bus := { b with scl := level }

/-- SDA is written. -/
def setSda (routine : Routine) (b : Bus) (level : Bool) : Bus :=
  { b with
    sda := level
    conditions := b.conditions ++
      if b.scl ∧ b.sda ≠ level then [⟨routine, if level then .rising else .falling⟩] else [] }

/-- `IIC_Sda_In`: the pull-up is latched before the direction changes. -/
def sdaIn (routine : Routine) (b : Bus) : Bus := { b.setSda routine true with input := true }

/-- `IIC_Sda_Out`. -/
def sdaOut (b : Bus) : Bus := { b with input := false }

/-! ## The routines -/

/-- `IIC_Start`. -/
def start (b : Bus) : Bus :=
  let b := b.sdaOut
  let b := b.setSda .start true
  let b := b.setScl true
  let b := b.setSda .start false
  b.setScl false

/-- `IIC_Stop`. -/
def stop (b : Bus) : Bus :=
  let b := b.sdaOut
  let b := b.setScl false
  let b := b.setSda .stop false
  let b := b.setScl true
  b.setSda .stop true

/-- The loop of `IIC_Wait_Ack`.  `status` is what each read of SDA gives. -/
def waitLoop (status : Nat → Bool) (ucErrTime : Nat) (b : Bus) : UInt8 × Bus :=
  if status ucErrTime then
    if ucErrTime + 1 > 250 then (1, b.stop) else waitLoop status (ucErrTime + 1) b
  else (0, b.setScl false)
termination_by 250 - ucErrTime

/-- `IIC_Wait_Ack`. -/
def waitAck (status : Nat → Bool) (b : Bus) : UInt8 × Bus :=
  let b := b.sdaIn .waitAck
  let b := b.setScl false
  let b := b.setScl true
  waitLoop status 0 b

/-- `IIC_Ack` and `IIC_NAck` drive SDA low and high. -/
def acknowledge (routine : Routine) (level : Bool) (b : Bus) : Bus :=
  let b := b.setScl false
  let b := b.sdaOut
  let b := b.setSda routine level
  let b := b.setScl true
  b.setScl false

/-- `IIC_Ack`. -/
def ack (b : Bus) : Bus := b.acknowledge .ack false

/-- `IIC_NAck`. -/
def nack (b : Bus) : Bus := b.acknowledge .nack true

/-- The loop of `IIC_Send_Byte`, for the bits that are left. -/
def sendBits : Nat → UInt8 → Bus → Bus
  | 0, _, b => b
  | bits + 1, txd, b =>
      let b := b.setScl false
      let b := b.setSda .sendByte ((txd &&& 0x80) >>> 7 ≠ 0)
      sendBits bits (txd <<< 1) (b.setScl true)

/-- `IIC_Send_Byte`. -/
def sendByte (txd : UInt8) (b : Bus) : Bus := (sendBits 8 txd b.sdaOut).setScl false

/-- The loop of `IIC_Recv_Byte`. -/
def recvBits (status : Nat → Bool) : Nat → UInt8 → Bus → UInt8 × Bus
  | 0, receive, b => (receive, b)
  | bits + 1, receive, b =>
      let b := (b.setScl false).setScl true
      let receive := receive <<< 1
      recvBits status bits (if status (7 - bits) then receive ||| 1 else receive) b

/-- `IIC_Recv_Byte`. -/
def recvByte (ack : UInt8) (status : Nat → Bool) (b : Bus) : UInt8 × Bus :=
  let (receive, b) := recvBits status 8 0 (b.sdaIn .recvByte)
  let b := b.setScl false
  (receive, if ack = 0 then b.nack else b.ack)

end Bus

/-- A call of a routine, with what the slave does in it. -/
inductive Call where
  | start
  | stop
  | waitAck (status : Nat → Bool)
  | ack
  | nack
  | sendByte (txd : UInt8)
  | recvByte (ack : UInt8) (status : Nat → Bool)

/-- The bus behind a call. -/
def Bus.call (b : Bus) : Call → Bus
  | .start => b.start
  | .stop => b.stop
  | .waitAck status => (b.waitAck status).2
  | .ack => b.ack
  | .nack => b.nack
  | .sendByte txd => b.sendByte txd
  | .recvByte ack status => (b.recvByte ack status).2

/-- The conditions that a call is to make: a start, a stop, and a stop when no acknowledge comes in
time. -/
def Call.conditions : Call → List Condition
  | .start => [⟨.start, .falling⟩]
  | .stop => [⟨.stop, .rising⟩]
  | .waitAck status => if (List.range 251).all status then [⟨.stop, .rising⟩] else []
  | .ack | .nack | .sendByte _ | .recvByte _ _ => []

namespace Bus

/-! ## Conditions -/

/-- Between two calls SDA is not held low while SCL is high. -/
def Idle (b : Bus) : Prop := b.scl = true → b.sda = true

@[simp] theorem setScl_conditions (b : Bus) (level : Bool) :
    (b.setScl level).conditions = b.conditions := rfl

@[simp] theorem sdaOut_conditions (b : Bus) : b.sdaOut.conditions = b.conditions := rfl

variable {b : Bus}

/-- While SCL is low SDA may move. -/
theorem setSda_conditions_of_low (h : b.scl = false) (routine : Routine) (level : Bool) :
    (b.setSda routine level).conditions = b.conditions := by
  simp [setSda, h]

/-- An edge while SCL is high is a condition. -/
theorem setSda_conditions_of_high (h : b.scl = true) {level : Bool} (hlevel : b.sda ≠ level)
    (routine : Routine) : (b.setSda routine level).conditions =
      b.conditions ++ [⟨routine, if level then .rising else .falling⟩] := by
  simp [setSda, h, hlevel]

/-- Between two calls SDA may go high. -/
theorem Idle.setSda_conditions (h : b.Idle) (routine : Routine) :
    (b.setSda routine true).conditions = b.conditions := by
  cases hscl : b.scl with
  | false => exact setSda_conditions_of_low hscl routine true
  | true => simp [setSda, h hscl]

theorem Idle.sdaIn_conditions (h : b.Idle) (routine : Routine) :
    (b.sdaIn routine).conditions = b.conditions := h.setSda_conditions routine

theorem idle_of_low (h : b.scl = false) : b.Idle := fun hscl => by rw [h] at hscl; cases hscl

theorem idle_of_high (h : b.sda = true) : b.Idle := fun _ => h

/-! ## The routines make their conditions -/

theorem start_conditions (h : b.Idle) :
    b.start.conditions = b.conditions ++ [⟨.start, .falling⟩] := by
  have hidle : b.sdaOut.Idle := h
  rw [start, setScl_conditions, setSda_conditions_of_high rfl Bool.false_ne_true.symm,
    setScl_conditions, hidle.setSda_conditions, sdaOut_conditions]
  rfl

theorem stop_conditions : b.stop.conditions = b.conditions ++ [⟨.stop, .rising⟩] := by
  rw [stop, setSda_conditions_of_high rfl Bool.false_ne_true, setScl_conditions,
    setSda_conditions_of_low rfl]
  rfl

theorem acknowledge_conditions (routine : Routine) (level : Bool) :
    (b.acknowledge routine level).conditions = b.conditions := by
  rw [acknowledge, setScl_conditions, setScl_conditions, setSda_conditions_of_low rfl]
  rfl

/-- No acknowledge comes in time. -/
theorem waitLoop_of_timeout {status : Nat → Bool} (h : ∀ i < 251, status i = true)
    {ucErrTime : Nat} (hle : ucErrTime ≤ 250) :
    waitLoop status ucErrTime b = (1, b.stop) := by
  induction hle using Nat.decreasingInduction with
  | self => rw [waitLoop, if_pos (h 250 (by omega)), if_pos (by omega)]
  | of_succ n hlt ih => rw [waitLoop, if_pos (h n (by omega)), if_neg (by omega), ih]

/-- An acknowledge comes in time. -/
theorem waitLoop_of_ack {status : Nat → Bool} {i : Nat} (h : status i = false) (hi : i ≤ 250)
    {ucErrTime : Nat} (hle : ucErrTime ≤ i) :
    waitLoop status ucErrTime b = (0, b.setScl false) := by
  induction hle using Nat.decreasingInduction with
  | self => rw [waitLoop, if_neg (by simp [h])]
  | of_succ n hlt ih =>
      rw [waitLoop]
      split
      next => rw [if_neg (by omega), ih]
      next => rfl

/-- A stop is made when no acknowledge comes in time. -/
theorem Idle.waitAck (h : b.Idle) (status : Nat → Bool) : (b.waitAck status).2.Idle ∧
    (b.waitAck status).2.conditions = b.conditions ++ (Call.waitAck status).conditions := by
  rw [Bus.waitAck, Call.conditions]
  split
  next htimeout =>
    rw [List.all_eq_true] at htimeout
    rw [waitLoop_of_timeout (fun i hi => htimeout i (List.mem_range.mpr hi)) (Nat.zero_le _)]
    refine ⟨idle_of_high rfl, ?_⟩
    rw [stop_conditions, setScl_conditions, setScl_conditions, h.sdaIn_conditions]
  next hack =>
    rw [List.all_eq_true] at hack
    push Not at hack
    obtain ⟨i, hi, hstatus⟩ := hack
    rw [List.mem_range] at hi
    rw [ne_eq, Bool.not_eq_true] at hstatus
    rw [waitLoop_of_ack hstatus (by omega) (Nat.zero_le i)]
    refine ⟨idle_of_low rfl, ?_⟩
    rw [setScl_conditions, setScl_conditions, setScl_conditions, h.sdaIn_conditions,
      List.append_nil]

/-- The bits change SDA while SCL is low. -/
theorem sendBits_conditions (bits : Nat) (txd : UInt8) :
    (sendBits bits txd b).conditions = b.conditions := by
  induction bits generalizing txd b with
  | zero => rfl
  | succ bits ih =>
      rw [sendBits, ih, setScl_conditions, setSda_conditions_of_low rfl]
      rfl

theorem recvBits_conditions (status : Nat → Bool) (bits : Nat) (receive : UInt8) :
    (recvBits status bits receive b).2.conditions = b.conditions := by
  induction bits generalizing receive b with
  | zero => rfl
  | succ bits ih =>
      rw [recvBits, ih]
      rfl

/-- The byte and its acknowledge make no condition. -/
theorem Idle.recvByte (h : b.Idle) (ack : UInt8) (status : Nat → Bool) :
    (b.recvByte ack status).2.Idle ∧ (b.recvByte ack status).2.conditions = b.conditions := by
  rw [Bus.recvByte]
  have hbits := recvBits_conditions (b := b.sdaIn .recvByte) status 8 0
  rw [h.sdaIn_conditions] at hbits
  generalize recvBits status 8 0 (b.sdaIn .recvByte) = received at hbits
  obtain ⟨receive, b'⟩ := received
  dsimp only
  split
  next => exact ⟨idle_of_low rfl, (acknowledge_conditions ..).trans hbits⟩
  next => exact ⟨idle_of_low rfl, (acknowledge_conditions ..).trans hbits⟩

/-- Every call makes its conditions, and leaves the bus idle. -/
theorem Idle.call (h : b.Idle) (c : Call) :
    (b.call c).Idle ∧ (b.call c).conditions = b.conditions ++ c.conditions := by
  cases c with
  | start => exact ⟨idle_of_low rfl, start_conditions h⟩
  | stop => exact ⟨idle_of_high rfl, stop_conditions⟩
  | waitAck status => exact h.waitAck status
  | ack => exact ⟨idle_of_low rfl, (acknowledge_conditions ..).trans (List.append_nil _).symm⟩
  | nack => exact ⟨idle_of_low rfl, (acknowledge_conditions ..).trans (List.append_nil _).symm⟩
  | sendByte txd =>
      refine ⟨idle_of_low rfl, ?_⟩
      rw [Bus.call, sendByte, setScl_conditions, sendBits_conditions, sdaOut_conditions,
        Call.conditions, List.append_nil]
  | recvByte ack status =>
      rw [Call.conditions, List.append_nil]
      exact h.recvByte ack status

end Bus

/-- Whatever is called, the only conditions on the bus are one start for each call of `IIC_Start`
and one stop for each call of `IIC_Stop`, also of the one when no acknowledge comes in time. -/
theorem line_discipline (calls : List Call) :
    (calls.foldl Bus.call Bus.init).conditions = calls.flatMap Call.conditions := by
  have hrun : (calls.foldl Bus.call Bus.init).Idle ∧
      (calls.foldl Bus.call Bus.init).conditions = calls.flatMap Call.conditions := by
    induction calls using List.reverseRecOn with
    | nil => exact ⟨Bus.idle_of_high rfl, rfl⟩
    | append_singleton calls c ih =>
        obtain ⟨hidle, hconditions⟩ := ih
        obtain ⟨hidle', hconditions'⟩ := hidle.call c
        rw [List.foldl_append, List.flatMap_append, List.flatMap_singleton, ← hconditions]
        exact ⟨hidle', hconditions'⟩
  exact hrun.2

end IotEdge.GpioIic
