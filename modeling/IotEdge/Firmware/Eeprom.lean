import IotEdge.Firmware.IicBus

/-!
# The EEPROM

The driver writes a byte to the memory chip, or reads one from it, in a transfer of a few bytes on
the I2C bus.  The chip is no part of the firmware: it is any device with a memory of 256 bytes that
does on the bus what the data sheets of such chips say (`Chip`).  It stores the byte of a transfer
when the transfer stops, and then answers nobody until its write cycle has ended.

The driver drops what `IIC_Wait_Ack` returns.  `runs_as_store` says what that comes to: any calls of
the driver, on the lines, do what `Store` does.  A byte that is read is the one written last at its
address, except that a chip that does not answer loses the write, and reads as `0xff`.  The callers
give the address of the device for writing, with its read flag off.
-/

open TwoWire

namespace IotEdge.Eeprom

open IicBus (Wire)

universe u

/-! ## Addresses -/

/-- An address for writing: its read flag is off. -/
def IsWrite (daddr : UInt8) : Prop := daddr &&& 1 = 0

instance : DecidablePred IsWrite := fun daddr => inferInstanceAs (Decidable (daddr &&& 1 = 0))

theorem IsWrite.flag {daddr : UInt8} (h : IsWrite daddr) : (daddr ||| 1) ^^^ 1 = daddr := by
  have hall : ∀ n < 256, UInt8.ofNat n &&& 1 = 0 → (UInt8.ofNat n ||| 1) ^^^ 1 = UInt8.ofNat n := by
    decide +kernel
  have hflag := hall daddr.toNat daddr.toNat_lt
  rw [UInt8.ofNat_toNat] at hflag
  exact hflag h

/-- With the read flag on, the addresses differ as they did. -/
theorem IsWrite.flag_inj {daddr own : UInt8} (h : IsWrite daddr) (hown : IsWrite own) :
    daddr ||| 1 = own ||| 1 ↔ daddr = own := by
  constructor
  · intro heq
    rw [← h.flag, heq, hown.flag]
  · intro heq
    rw [heq]

theorem not_isWrite_flag (own : UInt8) : ¬ IsWrite (own ||| 1) := by
  have hall : ∀ n < 256, (UInt8.ofNat n ||| 1) &&& 1 ≠ 0 := by decide +kernel
  have h := hall own.toNat own.toNat_lt
  rwa [UInt8.ofNat_toNat] at h

theorem IsWrite.ne_flag {daddr : UInt8} (h : IsWrite daddr) (own : UInt8) : daddr ≠ own ||| 1 :=
  fun heq => not_isWrite_flag own (heq ▸ h)

theorem IsWrite.flag_ne {own : UInt8} (h : IsWrite own) (daddr : UInt8) : daddr ||| 1 ≠ own :=
  fun heq => not_isWrite_flag daddr (heq ▸ h)

/-! ## The chip -/

/-- A memory that is busy after each write. -/
structure Store where
  cells : UInt8 → UInt8
  busy : Bool

/-- What the next byte is to the chip. -/
inductive Stage where
  /-- Nothing, until a transfer starts. -/
  | rest
  /-- The address of the device. -/
  | select
  /-- The address in the memory. -/
  | word
  /-- The byte to be stored. -/
  | store
  /-- The byte is stored when the transfer stops. -/
  | stored (byte : UInt8)
  /-- The chip sends. -/
  | read
  deriving DecidableEq, Repr

/-- What the firmware relies on in the memory chip. -/
structure Chip (σ : Type u) where
  device : Device σ
  /-- The address of the device. -/
  own : UInt8
  own_isWrite : IsWrite own
  /-- The write cycle ends. -/
  written : σ → σ
  /-- The chip is at this stage of a transfer, with its address pointer and its memory. -/
  Is : σ → Stage → UInt8 → Store → Prop
  /-- A start condition begins a transfer at any stage, and keeps the pointer. -/
  start {s : σ} {stage : Stage} {pointer : UInt8} {m : Store} (h : Is s stage pointer m) :
    Is (device.start s) .select pointer m
  /-- A chip that is not busy acknowledges its address. -/
  select {s : σ} {pointer : UInt8} {m : Store} (h : Is s .select pointer m)
    (hbusy : m.busy = false) : ∃ s', device.receive s own = (true, s') ∧
      device.sends s' = none ∧ Is s' .word pointer m
  /-- With the read flag, it sends the byte at the pointer. -/
  selectRead {s : σ} {pointer : UInt8} {m : Store} (h : Is s .select pointer m)
    (hbusy : m.busy = false) : ∃ s', device.receive s (own ||| 1) = (true, s') ∧
      device.sends s' = some (m.cells pointer) ∧ Is s' .read pointer m
  /-- A busy chip acknowledges no address. -/
  ignoreBusy {s : σ} {pointer : UInt8} {m : Store} (h : Is s .select pointer m)
    (hbusy : m.busy = true) (daddr : UInt8) :
    ∃ s', device.receive s daddr = (false, s') ∧ Is s' .rest pointer m
  /-- No chip acknowledges the address of another. -/
  ignoreOther {s : σ} {pointer : UInt8} {m : Store} (h : Is s .select pointer m) {daddr : UInt8}
    (hne : daddr ≠ own) (hread : daddr ≠ own ||| 1) :
    ∃ s', device.receive s daddr = (false, s') ∧ Is s' .rest pointer m
  /-- The byte after the address of the device sets the pointer. -/
  word {s : σ} {pointer : UInt8} {m : Store} (h : Is s .word pointer m) (waddr : UInt8) :
    ∃ s', device.receive s waddr = (true, s') ∧ device.sends s' = none ∧ Is s' .store waddr m
  /-- The byte after that is kept until the transfer stops. -/
  data {s : σ} {pointer : UInt8} {m : Store} (h : Is s .store pointer m) (byte : UInt8) :
    ∃ s', device.receive s byte = (true, s') ∧ device.sends s' = none ∧
      Is s' (.stored byte) pointer m
  /-- It is stored then, and the write cycle begins. -/
  stopStored {s : σ} {pointer byte : UInt8} {m : Store} (h : Is s (.stored byte) pointer m) :
    ∃ pointer', Is (device.stop s) .rest pointer' ⟨Function.update m.cells pointer byte, true⟩
  /-- A byte that the master does not acknowledge is the last one that the chip sends. -/
  sent {s : σ} {pointer : UInt8} {m : Store} (h : Is s .read pointer m) :
    ∃ pointer', Is (device.sent s false) .rest pointer' m
  /-- Nothing else is stored. -/
  stop {s : σ} {pointer : UInt8} {m : Store} (h : Is s .rest pointer m) :
    Is (device.stop s) .rest pointer m
  /-- The chip answers again after its write cycle. -/
  written_is {s : σ} {pointer : UInt8} {m : Store} (h : Is s .rest pointer m) :
    Is (written s) .rest pointer { m with busy := false }

variable {σ : Type u}

/-! ## The driver -/

variable (d : Device σ)

/-- `eeprom_byte_write`. -/
def eepromByteWrite (daddr waddr data : UInt8) (w : Wire σ) : Wire σ :=
  let w := w.start d
  let w := w.sendByte d daddr
  let w := (w.waitAck d).2
  let w := w.sendByte d waddr
  let w := (w.waitAck d).2
  let w := w.sendByte d data
  let w := (w.waitAck d).2
  w.stop d

/-- `eeprom_rand_read`. -/
def eepromRandRead (daddr waddr : UInt8) (w : Wire σ) : UInt8 × Wire σ :=
  let w := w.start d
  let w := w.sendByte d daddr
  let w := (w.waitAck d).2
  let w := w.sendByte d waddr
  let w := (w.waitAck d).2
  let w := w.start d
  let w := w.sendByte d (daddr ||| 0x01)
  let w := (w.waitAck d).2
  let (data, w) := w.recvByte d 0
  (data, w.stop d)

/-- The requests of a write. -/
def writeRequests (daddr waddr data : UInt8) : List Request :=
  [.start, .send daddr, .wait, .send waddr, .wait, .send data, .wait, .stop]

/-- The requests of a read. -/
def readRequests (daddr waddr : UInt8) : List Request :=
  [.start, .send daddr, .wait, .send waddr, .wait, .start, .send (daddr ||| 0x01), .wait,
    .take false, .stop]

variable {d}

theorem eepromByteWrite_eq (daddr waddr data : UInt8) (w : Wire σ) :
    eepromByteWrite d daddr waddr data w = (w.calls d (writeRequests daddr waddr data)).2 := rfl

theorem eepromRandRead_eq (daddr waddr : UInt8) (w : Wire σ) :
    (w.calls d (readRequests daddr waddr)).1[8]? =
        some (.byte (eepromRandRead d daddr waddr w).1) ∧
      (eepromRandRead d daddr waddr w).2 = (w.calls d (readRequests daddr waddr)).2 :=
  ⟨rfl, rfl⟩

/-! ## What the chip is for -/

/-- What the firmware does with the chip, and the end of a write cycle in it. -/
inductive Action where
  | write (daddr waddr data : UInt8)
  | read (daddr waddr : UInt8)
  | written
  deriving DecidableEq, Repr

/-- The firmware addresses a device for writing. -/
def Action.IsAddressed : Action → Prop
  | .write daddr _ _ | .read daddr _ => IsWrite daddr
  | .written => True

namespace Store

/-- The memory answers. -/
def Answers (own daddr : UInt8) (m : Store) : Prop := m.busy = false ∧ daddr = own

instance (own daddr : UInt8) (m : Store) : Decidable (m.Answers own daddr) :=
  inferInstanceAs (Decidable (_ ∧ _))

/-- An action, and the byte it reads. -/
def act (own : UInt8) (m : Store) : Action → Option UInt8 × Store
  | .write daddr waddr data =>
      (none, if m.Answers own daddr then ⟨Function.update m.cells waddr data, true⟩ else m)
  | .read daddr waddr => (some (if m.Answers own daddr then m.cells waddr else 0xff), m)
  | .written => (none, { m with busy := false })

/-- Actions one after the other, with what they read. -/
def acts (own : UInt8) (m : Store) : List Action → List (Option UInt8) × Store
  | [] => ([], m)
  | a :: as =>
      let (data, m) := m.act own a
      let (rest, m) := m.acts own as
      (data :: rest, m)

end Store

namespace Chip

/-- An action on the lines. -/
def act (chip : Chip σ) (w : Wire σ) : Action → Option UInt8 × Wire σ
  | .write daddr waddr data => (none, eepromByteWrite chip.device daddr waddr data w)
  | .read daddr waddr =>
      let (data, w) := eepromRandRead chip.device daddr waddr w
      (some data, w)
  | .written => (none, { w with follower.device := chip.written w.follower.device })

/-- Actions on the lines one after the other, with what they read. -/
def acts (chip : Chip σ) (w : Wire σ) : List Action → List (Option UInt8) × Wire σ
  | [] => ([], w)
  | a :: as =>
      let (data, w) := chip.act w a
      let (rest, w) := chip.acts w as
      (data :: rest, w)

/-! ## A transfer -/

variable {chip : Chip σ} {daddr : UInt8} {s : σ} {pointer : UInt8} {m : Store}

/-- A busy chip takes no address, and another takes no other address. -/
theorem ignore (h : chip.Is s .select pointer m) (hsilent : ¬ m.Answers chip.own daddr)
    (hdaddr : IsWrite daddr) :
    ∃ s', chip.device.receive s daddr = (false, s') ∧ chip.Is s' .rest pointer m := by
  rw [Store.Answers, not_and_or, Bool.not_eq_false] at hsilent
  rcases hsilent with hbusy | hne
  · exact chip.ignoreBusy h hbusy daddr
  · exact chip.ignoreOther h hne (hdaddr.ne_flag chip.own)

theorem ignore_flag (h : chip.Is s .select pointer m) (hsilent : ¬ m.Answers chip.own daddr)
    (hdaddr : IsWrite daddr) :
    ∃ s', chip.device.receive s (daddr ||| 1) = (false, s') ∧ chip.Is s' .rest pointer m := by
  rw [Store.Answers, not_and_or, Bool.not_eq_false] at hsilent
  rcases hsilent with hbusy | hne
  · exact chip.ignoreBusy h hbusy _
  · refine chip.ignoreOther h (chip.own_isWrite.flag_ne daddr) fun heq => hne ?_
    exact (hdaddr.flag_inj chip.own_isWrite).mp heq

/-- The chip is between two transfers. -/
def Rests (chip : Chip σ) (s : Session σ) (m : Store) : Prop :=
  s.turn = .free ∧ ∃ pointer, chip.Is s.device .rest pointer m

/-- A write that the chip answers stores the byte. -/
theorem write_answered (h : chip.Is s .rest pointer m) (waddr data : UInt8)
    (hanswers : m.Answers chip.own daddr) : ∃ replies s',
    (Session.mk .free s).requests chip.device (writeRequests daddr waddr data) =
        some (replies, s') ∧
      chip.Rests s' ⟨Function.update m.cells waddr data, true⟩ := by
  obtain ⟨hbusy, rfl⟩ := hanswers
  obtain ⟨s₁, hreceive₁, hsends₁, h₁⟩ := chip.select (chip.start h) hbusy
  obtain ⟨s₂, hreceive₂, hsends₂, h₂⟩ := chip.word h₁ waddr
  obtain ⟨s₃, hreceive₃, hsends₃, h₃⟩ := chip.data h₂ data
  refine ⟨_, _, Session.requests_of_cons rfl <|
    Session.requests_of_cons (Session.send_accepted hreceive₁) <|
    Session.requests_of_cons (Session.wait_listens hsends₁) <|
    Session.requests_of_cons (Session.send_accepted hreceive₂) <|
    Session.requests_of_cons (Session.wait_listens hsends₂) <|
    Session.requests_of_cons (Session.send_accepted hreceive₃) <|
    Session.requests_of_cons (Session.wait_listens hsends₃) <|
    Session.requests_of_cons rfl rfl, rfl, chip.stopStored h₃⟩

/-- A write that the chip does not answer is lost. -/
theorem write_silent (h : chip.Is s .rest pointer m) (waddr data : UInt8)
    (hsilent : ¬ m.Answers chip.own daddr) (hdaddr : IsWrite daddr) : ∃ replies s',
    (Session.mk .free s).requests chip.device (writeRequests daddr waddr data) =
        some (replies, s') ∧ chip.Rests s' m := by
  obtain ⟨s₁, hreceive, h₁⟩ := ignore (chip.start h) hsilent hdaddr
  -- Each wait stops the transfer once more.
  refine ⟨_, _, Session.requests_of_cons rfl <|
    Session.requests_of_cons (Session.send_refused hreceive) <|
    Session.requests_of_cons rfl <| Session.requests_of_cons rfl <|
    Session.requests_of_cons rfl <| Session.requests_of_cons rfl <|
    Session.requests_of_cons rfl <| Session.requests_of_cons rfl rfl, rfl, pointer, ?_⟩
  exact chip.stop (chip.stop (chip.stop (chip.stop h₁)))

/-- A read that the chip answers gives the byte. -/
theorem read_answered (h : chip.Is s .rest pointer m) (waddr : UInt8)
    (hanswers : m.Answers chip.own daddr) : ∃ replies s',
    (Session.mk .free s).requests chip.device (readRequests daddr waddr) = some (replies, s') ∧
      replies[8]? = some (.byte (m.cells waddr)) ∧ chip.Rests s' m := by
  obtain ⟨hbusy, rfl⟩ := hanswers
  obtain ⟨s₁, hreceive₁, hsends₁, h₁⟩ := chip.select (chip.start h) hbusy
  obtain ⟨s₂, hreceive₂, hsends₂, h₂⟩ := chip.word h₁ waddr
  obtain ⟨s₃, hreceive₃, hsends₃, h₃⟩ := chip.selectRead (chip.start h₂) hbusy
  obtain ⟨pointer', h₄⟩ := chip.sent h₃
  exact ⟨_, _, Session.requests_of_cons rfl <|
    Session.requests_of_cons (Session.send_accepted hreceive₁) <|
    Session.requests_of_cons (Session.wait_listens hsends₁) <|
    Session.requests_of_cons (Session.send_accepted hreceive₂) <|
    Session.requests_of_cons (Session.wait_listens hsends₂) <|
    Session.requests_of_cons rfl <|
    Session.requests_of_cons (Session.send_accepted hreceive₃) <|
    Session.requests_of_cons (Session.wait_sends hsends₃) <|
    Session.requests_of_cons rfl <| Session.requests_of_cons rfl rfl, rfl, rfl, pointer',
    chip.stop h₄⟩

/-- A read that the chip does not answer gives ones. -/
theorem read_silent (h : chip.Is s .rest pointer m) (waddr : UInt8)
    (hsilent : ¬ m.Answers chip.own daddr) (hdaddr : IsWrite daddr) : ∃ replies s',
    (Session.mk .free s).requests chip.device (readRequests daddr waddr) = some (replies, s') ∧
      replies[8]? = some (.byte 0xff) ∧ chip.Rests s' m := by
  obtain ⟨s₁, hreceive₁, h₁⟩ := ignore (chip.start h) hsilent hdaddr
  have hstopped := chip.stop (chip.stop h₁)
  obtain ⟨s₂, hreceive₂, h₂⟩ := ignore_flag (chip.start hstopped) hsilent hdaddr
  exact ⟨_, _, Session.requests_of_cons rfl <|
    Session.requests_of_cons (Session.send_refused hreceive₁) <|
    Session.requests_of_cons rfl <| Session.requests_of_cons rfl <|
    Session.requests_of_cons rfl <| Session.requests_of_cons rfl <|
    Session.requests_of_cons (Session.send_refused hreceive₂) <|
    Session.requests_of_cons rfl <| Session.requests_of_cons rfl <|
    Session.requests_of_cons rfl rfl, rfl, rfl, pointer, chip.stop (chip.stop h₂)⟩

/-! ## Transfers one after the other -/

/-- The lines are free, and the chip holds the memory. -/
def Holds (chip : Chip σ) (w : Wire σ) (m : Store) : Prop := ∃ s, w.Shows s ∧ chip.Rests s m

theorem write_holds {w : Wire σ} (h : chip.Holds w m) (waddr data : UInt8)
    (hdaddr : IsWrite daddr) : chip.Holds (eepromByteWrite chip.device daddr waddr data w)
      (m.act chip.own (.write daddr waddr data)).2 := by
  obtain ⟨⟨turn, s⟩, hw, rfl, pointer, hs⟩ := h
  rw [eepromByteWrite_eq, Store.act]
  split
  next hanswers =>
    obtain ⟨replies, s', hrequests, hs'⟩ := write_answered hs waddr data hanswers
    exact ⟨s', (Wire.calls_refines hw hrequests).2, hs'⟩
  next hsilent =>
    obtain ⟨replies, s', hrequests, hs'⟩ := write_silent hs waddr data hsilent hdaddr
    exact ⟨s', (Wire.calls_refines hw hrequests).2, hs'⟩

theorem read_holds {w : Wire σ} (h : chip.Holds w m) (waddr : UInt8) (hdaddr : IsWrite daddr) :
    some (eepromRandRead chip.device daddr waddr w).1 =
        (m.act chip.own (.read daddr waddr)).1 ∧
      chip.Holds (eepromRandRead chip.device daddr waddr w).2 m := by
  obtain ⟨⟨turn, s⟩, hw, rfl, pointer, hs⟩ := h
  obtain ⟨hdata, hwire⟩ := eepromRandRead_eq (d := chip.device) daddr waddr w
  have hbyte : ∀ {replies s' byte},
      (Session.mk .free s).requests chip.device (readRequests daddr waddr) = some (replies, s') →
      replies[8]? = some (.byte byte) →
      (eepromRandRead chip.device daddr waddr w).1 = byte ∧
        (eepromRandRead chip.device daddr waddr w).2.Shows s' := by
    intro replies s' byte hrequests hbyte
    obtain ⟨hreplies, hw'⟩ := Wire.calls_refines hw hrequests
    rw [hreplies, hbyte, Option.some.injEq, Reply.byte.injEq] at hdata
    rw [hwire]
    exact ⟨hdata.symm, hw'⟩
  rw [Store.act]
  split
  next hanswers =>
    obtain ⟨replies, s', hrequests, hreply, hs'⟩ := read_answered hs waddr hanswers
    obtain ⟨hdata, hw'⟩ := hbyte hrequests hreply
    exact ⟨congrArg some hdata, s', hw', hs'⟩
  next hsilent =>
    obtain ⟨replies, s', hrequests, hreply, hs'⟩ := read_silent hs waddr hsilent hdaddr
    obtain ⟨hdata, hw'⟩ := hbyte hrequests hreply
    exact ⟨congrArg some hdata, s', hw', hs'⟩

theorem act_holds {w : Wire σ} (h : chip.Holds w m) {a : Action} (ha : a.IsAddressed) :
    (chip.act w a).1 = (m.act chip.own a).1 ∧ chip.Holds (chip.act w a).2 (m.act chip.own a).2 := by
  cases a with
  | write daddr waddr data => exact ⟨rfl, write_holds h waddr data ha⟩
  | read daddr waddr => exact read_holds h waddr ha
  | written =>
      obtain ⟨⟨turn, s⟩, ⟨b, hb, rfl⟩, rfl, pointer, hs⟩ := h
      exact ⟨rfl, ⟨.free, chip.written s⟩, ⟨b, hb, rfl⟩, rfl, pointer, chip.written_is hs⟩

end Chip

/-- Whatever the firmware does with the chip, it reads what the memory holds, and the chip stores
what the memory stores. -/
theorem runs_as_store (chip : Chip σ) {s : σ} {pointer : UInt8} {m : Store}
    (h : chip.Is s .rest pointer m) {actions : List Action}
    (hactions : ∀ a ∈ actions, a.IsAddressed) :
    (chip.acts (Wire.init s) actions).1 = (m.acts chip.own actions).1 ∧
      chip.Holds (chip.acts (Wire.init s) actions).2 (m.acts chip.own actions).2 := by
  have hrun : ∀ (w : Wire σ) (m : Store), chip.Holds w m →
      (chip.acts w actions).1 = (m.acts chip.own actions).1 ∧
        chip.Holds (chip.acts w actions).2 (m.acts chip.own actions).2 := by
    induction actions with
    | nil => exact fun w m h => ⟨rfl, h⟩
    | cons a as ih =>
        intro w m h
        obtain ⟨hdata, h'⟩ := Chip.act_holds h (hactions a List.mem_cons_self)
        obtain ⟨hrest, h''⟩ := ih (fun b hb => hactions b (List.mem_cons_of_mem a hb)) _ _ h'
        exact ⟨congrArg₂ List.cons hdata hrest, h''⟩
  exact hrun _ _ ⟨_, Wire.init_shows s, rfl, pointer, h⟩

/-! ## A chip -/

/-- The state of a chip: what `Chip.Is` says of it. -/
structure Memory where
  stage : Stage
  pointer : UInt8
  store : Store

/-- A chip under the address 0xa0, which counts its pointer up with every byte. -/
def memory : Chip Memory where
  device :=
    { start := fun c => { c with stage := .select }
      stop := fun c =>
        match c.stage with
        | .stored byte =>
            ⟨.rest, c.pointer + 1, ⟨Function.update c.store.cells c.pointer byte, true⟩⟩
        | _ => { c with stage := .rest }
      receive := fun c byte =>
        match c.stage with
        | .select =>
            if c.store.busy then (false, { c with stage := .rest })
            else if byte = 0xa0 then (true, { c with stage := .word })
            else if byte = 0xa1 then (true, { c with stage := .read })
            else (false, { c with stage := .rest })
        | .word => (true, { c with pointer := byte, stage := .store })
        | .store => (true, { c with stage := .stored byte })
        | _ => (false, { c with stage := .rest })
      sends := fun c => if c.stage = .read then some (c.store.cells c.pointer) else none
      sent := fun c acknowledged =>
        { c with pointer := c.pointer + 1, stage := if acknowledged then .read else .rest } }
  own := 0xa0
  own_isWrite := by decide
  written c := { c with store.busy := false }
  Is c stage pointer m := c = ⟨stage, pointer, m⟩
  start := by
    rintro _ stage pointer m rfl
    rfl
  select := by
    rintro _ pointer ⟨cells, busy⟩ rfl rfl
    exact ⟨_, rfl, rfl, rfl⟩
  selectRead := by
    rintro _ pointer ⟨cells, busy⟩ rfl rfl
    exact ⟨_, rfl, rfl, rfl⟩
  ignoreBusy := by
    rintro _ pointer ⟨cells, busy⟩ rfl rfl daddr
    exact ⟨_, rfl, rfl⟩
  ignoreOther := by
    rintro _ pointer ⟨cells, busy⟩ rfl daddr hne hread
    refine ⟨⟨.rest, pointer, ⟨cells, busy⟩⟩, ?_, rfl⟩
    have hread' : daddr ≠ 0xa1 := hread
    dsimp only
    rw [if_neg hne, if_neg hread', ite_self]
  word := by
    rintro _ pointer m rfl waddr
    exact ⟨_, rfl, rfl, rfl⟩
  data := by
    rintro _ pointer m rfl byte
    exact ⟨_, rfl, rfl, rfl⟩
  stopStored := by
    rintro _ pointer byte m rfl
    exact ⟨_, rfl⟩
  sent := by
    rintro _ pointer m rfl
    exact ⟨_, rfl⟩
  stop := by
    rintro _ pointer m rfl
    rfl
  written_is := by
    rintro _ pointer m rfl
    rfl

/-- A byte is written and read twice: before the chip has written it, and afterwards. -/
theorem runs_as_store_once :
    let actions : List Action := [.write 0xa0 7 42, .read 0xa0 7, .written, .read 0xa0 7]
    (memory.acts (Wire.init ⟨.rest, 0, ⟨fun _ => 0, false⟩⟩) actions).1 =
      [none, some 0xff, none, some 42] := by
  refine (runs_as_store memory rfl (fun a ha => ?_)).1.trans (by decide)
  simp only [List.mem_cons, List.not_mem_nil, or_false] at ha
  rcases ha with rfl | rfl | rfl | rfl
  · exact (by decide : IsWrite 0xa0)
  · exact (by decide : IsWrite 0xa0)
  · trivial
  · exact (by decide : IsWrite 0xa0)

end IotEdge.Eeprom
