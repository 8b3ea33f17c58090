import Mathlib

/-!
# Devices on a two-wire bus

A bus has a clock line and a data line.  While the clock is high a falling edge of
the data line starts a transfer and a rising edge stops it; otherwise the data line
carries a bit, which the receiver takes when the clock rises and the sender changes
when it has fallen.  After eight bits the receiver acknowledges in a ninth clock.

A device is given at the level of bytes (`Device`).  `Follower` runs it at the level
of the lines: it sees every level the master puts on them, and may hold the data
line low.  `follow_start` and the lemmas beside it say what one level change does.

`Session` is the bus at the level of bytes: whose turn it is between two calls of
the master, and the device.
-/

namespace TwoWire

universe u

/-- A device, as it sees the bytes on the bus. -/
structure Device (σ : Type u) where
  /-- The transfer starts. -/
  start : σ → σ
  /-- The transfer stops. -/
  stop : σ → σ
  /-- A byte comes in, and is acknowledged or not. -/
  receive : σ → UInt8 → Bool × σ
  /-- The byte to send, if the device is the sender. -/
  sends : σ → Option UInt8
  /-- The byte is out, and was acknowledged or not. -/
  sent : σ → Bool → σ

/-! ## Bytes and their bits -/

/-- The first bits of a byte, most significant first. -/
def bitsOf : Nat → UInt8 → List Bool
  | 0, _ => []
  | n + 1, byte => decide ((byte &&& 0x80) >>> 7 ≠ 0) :: bitsOf n (byte <<< 1)

/-- A bit is shifted in from the right. -/
def shiftIn (byte : UInt8) (bit : Bool) : UInt8 := if bit then byte <<< 1 ||| 1 else byte <<< 1

/-- The byte with these bits. -/
def byteOf (bits : List Bool) : UInt8 := bits.foldl shiftIn 0

@[simp] theorem length_bitsOf (n : Nat) (byte : UInt8) : (bitsOf n byte).length = n := by
  induction n generalizing byte with
  | zero => rfl
  | succ n ih => rw [bitsOf, List.length_cons, ih]

/-- Eight bits are the byte. -/
theorem byteOf_bitsOf (byte : UInt8) : byteOf (bitsOf 8 byte) = byte := by
  have hall : ∀ n < 256, byteOf (bitsOf 8 (UInt8.ofNat n)) = UInt8.ofNat n := by decide +kernel
  have h := hall byte.toNat byte.toNat_lt
  rwa [UInt8.ofNat_toNat] at h

/-! ## A device on the lines -/

/-- What a device does on the lines. -/
inductive Phase where
  /-- Not addressed: it waits for a start. -/
  | idle
  /-- It takes bits, and has these. -/
  | receiving (bits : List Bool)
  /-- It holds the data line low for one clock. -/
  | acknowledging
  /-- It sends the first of these bits, and then the others. -/
  | sending (bits : List Bool)
  /-- It waits for the acknowledge, or has it. -/
  | awaiting (acknowledge : Option Bool)
  deriving DecidableEq, Repr

/-- The device holds the data line low. -/
def Phase.low : Phase → Bool
  | .acknowledging => true
  | .sending (bit :: _) => !bit
  | _ => false

/-- A device and the levels it saw last. -/
structure Follower (σ : Type u) where
  clock : Bool
  data : Bool
  phase : Phase
  device : σ
  deriving DecidableEq, Repr

variable {σ : Type u} (d : Device σ)

/-- The phase in which a device goes on after an acknowledged byte. -/
def turnOf (s : σ) : Phase :=
  match d.sends s with
  | some byte => .sending (bitsOf 8 byte)
  | none => .receiving []

/-- What the device does when the clock rises. -/
def Phase.rise (data : Bool) : Phase → Phase
  | .receiving bits => .receiving (bits ++ [data])
  | .awaiting none => .awaiting (some !data)
  | phase => phase

/-- What the device does when the clock falls. -/
def fall (s : σ) : Phase → Phase × σ
  | .receiving bits =>
      if bits.length = 8 then
        match d.receive s (byteOf bits) with
        | (true, s) => (.acknowledging, s)
        | (false, s) => (.idle, s)
      else (.receiving bits, s)
  | .acknowledging => (turnOf d s, s)
  | .sending (_ :: bit :: bits) => (.sending (bit :: bits), s)
  | .sending _ => (.awaiting none, s)
  | .awaiting (some true) => (turnOf d (d.sent s true), d.sent s true)
  | .awaiting (some false) => (.idle, d.sent s false)
  | .awaiting none => (.awaiting none, s)
  | .idle => (.idle, s)

namespace Follower

/-- The level of the data line, which the master holds at `data`. -/
def level (f : Follower σ) (data : Bool) : Bool := data && !f.phase.low

/-- The master holds the clock at `clock` and the data line at `data`. -/
def follow (f : Follower σ) (clock data : Bool) : Follower σ :=
  match f.clock, clock with
  | false, true => ⟨true, f.level data, f.phase.rise (f.level data), f.device⟩
  | true, false =>
      let (phase, s) := fall d f.device f.phase
      ⟨false, data && !phase.low, phase, s⟩
  | false, false => { f with data := f.level data }
  | true, true =>
      match f.data, f.level data with
      | true, false => ⟨true, false, .receiving [], d.start f.device⟩
      | false, true => ⟨true, true, .idle, d.stop f.device⟩
      | _, data => { f with data := data }

variable {d}

theorem follow_start {f : Follower σ} (h : f.clock = true) (hdata : f.data = true)
    {data : Bool} (hlevel : f.level data = false) :
    f.follow d true data = ⟨true, false, .receiving [], d.start f.device⟩ := by
  obtain ⟨clock, level, phase, s⟩ := f
  subst h hdata
  simp only [follow, hlevel]

theorem follow_stop {f : Follower σ} (h : f.clock = true) (hdata : f.data = false)
    {data : Bool} (hlevel : f.level data = true) :
    f.follow d true data = ⟨true, true, .idle, d.stop f.device⟩ := by
  obtain ⟨clock, level, phase, s⟩ := f
  subst h hdata
  simp only [follow, hlevel]

/-- Nothing happens while both lines stay high. -/
theorem follow_high {f : Follower σ} (h : f.clock = true) {data : Bool}
    (hlevel : f.level data = f.data) : f.follow d true data = f := by
  obtain ⟨clock, level, phase, s⟩ := f
  subst h
  simp only [follow, hlevel]

end Follower

/-! ## The bus at the level of bytes -/

/-- Whose turn it is between two calls of the master. -/
inductive Turn where
  /-- The bus is free. -/
  | free
  /-- The device takes the next byte. -/
  | listens
  /-- It acknowledges a byte. -/
  | acknowledges
  /-- It sends a byte. -/
  | sends (byte : UInt8)
  /-- It takes no part until the next start. -/
  | deaf
  deriving DecidableEq, Repr

/-- The phase of the device in this turn. -/
def Turn.phase : Turn → Phase
  | .free | .deaf => .idle
  | .listens => .receiving []
  | .acknowledges => .acknowledging
  | .sends byte => .sending (bitsOf 8 byte)

/-- The bus between two calls. -/
structure Session (σ : Type u) where
  turn : Turn
  device : σ
  deriving DecidableEq, Repr

/-- What a master does with the bus. -/
inductive Request where
  | start
  | stop
  | send (byte : UInt8)
  /-- It waits for the acknowledge, and stops the transfer if none comes. -/
  | wait
  /-- It takes a byte, and acknowledges it or not. -/
  | take (acknowledge : Bool)
  deriving DecidableEq, Repr

/-- What a request gives the master. -/
inductive Reply where
  | done
  | acknowledged (ok : Bool)
  | byte (byte : UInt8)
  deriving DecidableEq, Repr

namespace Session

/-- Whose turn it is after an acknowledged byte. -/
def next (s : σ) : Turn :=
  match d.sends s with
  | some byte => .sends byte
  | none => .listens

theorem phase_next (s : σ) : (next d s).phase = turnOf d s := by
  rw [next, turnOf]
  cases d.sends s with
  | none => rfl
  | some byte => rfl

/-- A request, if it is the master's turn. -/
def request (s : Session σ) : Request → Option (Reply × Session σ)
  | .start =>
      match s.turn with
      | .acknowledges | .sends _ => none
      | _ => some (.done, ⟨.listens, d.start s.device⟩)
  | .stop =>
      match s.turn with
      | .acknowledges | .sends _ => none
      | _ => some (.done, ⟨.free, d.stop s.device⟩)
  | .send byte =>
      match s.turn with
      | .acknowledges | .sends _ => none
      | .listens =>
          match d.receive s.device byte with
          | (true, device) => some (.done, ⟨.acknowledges, device⟩)
          | (false, device) => some (.done, ⟨.deaf, device⟩)
      | _ => some (.done, ⟨.deaf, s.device⟩)
  | .wait =>
      match s.turn with
      | .sends _ => none
      | .acknowledges => some (.acknowledged true, ⟨next d s.device, s.device⟩)
      | _ => some (.acknowledged false, ⟨.free, d.stop s.device⟩)
  | .take acknowledge =>
      match s.turn with
      | .acknowledges | .listens => none
      | .sends byte =>
          let device := d.sent s.device acknowledge
          some (.byte byte, ⟨if acknowledge then next d device else .deaf, device⟩)
      | _ => some (.byte 0xff, ⟨.deaf, s.device⟩)

/-- Requests one after the other, with their replies. -/
def requests (s : Session σ) : List Request → Option (List Reply × Session σ)
  | [] => some ([], s)
  | r :: rs => do
      let (reply, s) ← s.request d r
      let (replies, s) ← s.requests rs
      return (reply :: replies, s)

variable {d} in
theorem requests_cons_eq_some {s s' : Session σ} {r : Request} {rs : List Request}
    {replies : List Reply} (h : s.requests d (r :: rs) = some (replies, s')) :
    ∃ reply s₁ replies', s.request d r = some (reply, s₁) ∧
      s₁.requests d rs = some (replies', s') ∧ replies = reply :: replies' := by
  rw [requests] at h
  obtain ⟨⟨reply, s₁⟩, hr, h⟩ := Option.bind_eq_some_iff.mp h
  obtain ⟨⟨replies', s₂⟩, hrs, h⟩ := Option.bind_eq_some_iff.mp h
  cases h
  exact ⟨reply, s₁, replies', hr, hrs, rfl⟩

variable {d}

theorem requests_of_cons {s s₁ s' : Session σ} {r : Request} {rs : List Request} {reply : Reply}
    {replies : List Reply} (h : s.request d r = some (reply, s₁))
    (hrs : s₁.requests d rs = some (replies, s')) :
    s.requests d (r :: rs) = some (reply :: replies, s') := by
  rw [requests, h]
  exact Option.bind_eq_some_iff.mpr ⟨_, rfl, Option.bind_eq_some_iff.mpr ⟨_, hrs, rfl⟩⟩

/-- The device takes the byte. -/
theorem send_accepted {s s' : σ} {byte : UInt8} (h : d.receive s byte = (true, s')) :
    (Session.mk .listens s).request d (.send byte) = some (.done, ⟨.acknowledges, s'⟩) := by
  rw [request]
  simp only [h]

/-- The device does not take the byte. -/
theorem send_refused {s s' : σ} {byte : UInt8} (h : d.receive s byte = (false, s')) :
    (Session.mk .listens s).request d (.send byte) = some (.done, ⟨.deaf, s'⟩) := by
  rw [request]
  simp only [h]

/-- The device acknowledges, and takes the next byte. -/
theorem wait_listens {s : σ} (h : d.sends s = none) :
    (Session.mk .acknowledges s).request d .wait = some (.acknowledged true, ⟨.listens, s⟩) := by
  rw [request, next]
  simp only [h]

/-- The device acknowledges, and sends the next byte. -/
theorem wait_sends {s : σ} {byte : UInt8} (h : d.sends s = some byte) :
    (Session.mk .acknowledges s).request d .wait =
      some (.acknowledged true, ⟨.sends byte, s⟩) := by
  rw [request, next]
  simp only [h]

end Session

end TwoWire
