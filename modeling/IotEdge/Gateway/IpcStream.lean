import IotEdge.Lib.LittleEndian
import IotEdge.Gateway.DataQueue

/-!
# Local clients

A local client is connected by a stream socket and writes `IPCData` structures.
The event loop calls `read` with `sizeof(IPCData)` and takes whatever it gets for
a whole structure.  The bytes that `read` does not fill are what the local
variable held before.

`Conn` is one connection: what the client wrote, how much of it was read, and the
records that were pushed for it.  `Conn.Framed` is what should hold: the pushed
records are the ones the client wrote, as far as their bytes were read.  A record that
finds the ring full is missing, and those behind it are still to be whole.
`Conn.framed_receive` says when a `read` keeps that.
-/

namespace IotEdge

/-- `sizeof(IPCData)`. -/
abbrev sizeofIPCData : Nat := 16

namespace IPCData

/-- The structure in memory, with the four bytes of padding behind `sensor_id`. -/
def toBytes (data : IPCData) (padding : UInt32) : List UInt8 :=
  LittleEndian.toBytes 4 data.sensorId.toNat ++ LittleEndian.toBytes 4 padding.toNat ++
    LittleEndian.toBytes 8 data.sensorData.bits.toNat

/-- The two fields, read from memory. -/
def ofBytes (bytes : List UInt8) : IPCData where
  sensorId := UInt32.ofNat (LittleEndian.ofBytes (bytes.take 4))
  sensorData := ⟨BitVec.ofNat 64 (LittleEndian.ofBytes ((bytes.drop 8).take 8))⟩

@[simp] theorem length_toBytes (data : IPCData) (padding : UInt32) :
    (data.toBytes padding).length = 16 := by
  simp [toBytes]

/-- The padding does not matter. -/
theorem ofBytes_toBytes (data : IPCData) (padding : UInt32) :
    ofBytes (data.toBytes padding) = data := by
  have hid : LittleEndian.ofBytes (LittleEndian.toBytes 4 data.sensorId.toNat) =
      data.sensorId.toNat := LittleEndian.ofBytes_toBytes_of_lt data.sensorId.toNat_lt
  have hdata : LittleEndian.ofBytes (LittleEndian.toBytes 8 data.sensorData.bits.toNat) =
      data.sensorData.bits.toNat := LittleEndian.ofBytes_toBytes_of_lt data.sensorData.bits.isLt
  have htake : (data.toBytes padding).take 4 = LittleEndian.toBytes 4 data.sensorId.toNat := by
    rw [toBytes, List.append_assoc, List.take_left' (LittleEndian.length_toBytes _ _)]
  have hdrop : ((data.toBytes padding).drop 8).take 8 =
      LittleEndian.toBytes 8 data.sensorData.bits.toNat := by
    rw [toBytes, List.drop_left' (by simp), List.take_of_length_le (by simp)]
  rw [ofBytes, htake, hdrop, hid, hdata, UInt32.ofNat_toNat, BitVec.ofNat_toNat]
  simp

/-- What is behind the structure does not matter. -/
theorem ofBytes_append {bytes : List UInt8} (h : bytes.length = 16) (rest : List UInt8) :
    ofBytes (bytes ++ rest) = ofBytes bytes := by
  have hid : (bytes ++ rest).take 4 = bytes.take 4 := List.take_append_of_le_length (by omega)
  have hdata : ((bytes ++ rest).drop 8).take 8 = (bytes.drop 8).take 8 := by
    rw [List.drop_append_of_le_length (by omega), List.take_append_of_le_length (by simp; omega)]
  rw [ofBytes, ofBytes, hid, hdata]

end IPCData

/-- A connection. -/
structure Conn where
  /-- The bytes the client has written. -/
  stream : List UInt8
  /-- The records it has written.  `none` once it has written anything else. -/
  written : Option (List IPCData)
  /-- The number of bytes the event loop has read. -/
  received : Nat
  /-- The records that were pushed for it. -/
  enqueued : List IPCData
  /-- How many bytes had been read before each of them. -/
  places : List Nat
  /-- Whether a record for it found the ring full. -/
  refused : Bool

namespace Conn

/-- A new connection. -/
def fresh : Conn where
  stream := []
  written := some []
  received := 0
  enqueued := []
  places := []
  refused := false

/-- The client writes a structure. -/
def send (c : Conn) (data : IPCData) (padding : UInt32) : Conn :=
  { c with
    stream := c.stream ++ data.toBytes padding
    written := c.written.map (· ++ [data]) }

/-- The client writes any bytes. -/
def sendRaw (c : Conn) (bytes : List UInt8) : Conn :=
  { c with stream := c.stream ++ bytes, written := none }

/-- `data` after a `read` that returned `n`.  Before it, `data` held `stack`. -/
def readData (c : Conn) (n : Nat) (stack : List UInt8) : IPCData :=
  .ofBytes ((c.stream.drop c.received).take n ++ stack.drop n)

/-- The connection after a `read` that returned `n`, and what was pushed. -/
def receive (c : Conn) (n : Nat) : Option IPCData → Conn
  | some data =>
      { c with
        received := c.received + n
        enqueued := c.enqueued ++ [data]
        places := c.places ++ [c.received] }
  | none => { c with received := c.received + n, refused := true }

/-- A record that was pushed is one of those the client wrote, and all of its bytes were
read. -/
def Whole (ws : List IPCData) (received place : Nat) (data : IPCData) : Prop :=
  ∃ k, place = 16 * k ∧ ws[k]? = some data ∧ place + 16 ≤ received

/-- While the client writes whole records, each record that was pushed is whole, and they
are in order.  While the ring has room, they are all whose bytes have been read. -/
structure Framed (c : Conn) : Prop where
  all : ∀ ws, c.written = some ws → c.refused = false →
    c.enqueued = ws.take (c.received / 16)
  whole : ∀ ws, c.written = some ws →
    List.Forall₂ (Whole ws c.received) c.places c.enqueued
  order : c.places.Pairwise (· < ·)

/-- What holds of every connection. -/
structure Valid (c : Conn) : Prop where
  /-- Only bytes that were written are read. -/
  received_le : c.received ≤ c.stream.length
  /-- The stream is as long as the records in it. -/
  length_stream : ∀ ws, c.written = some ws → c.stream.length = 16 * ws.length
  /-- The bytes of each record are in its place. -/
  record : ∀ ws, c.written = some ws → ∀ k data, ws[k]? = some data →
    IPCData.ofBytes ((c.stream.drop (16 * k)).take 16) = data
  /-- A `read` returns at most one record. -/
  length_le : c.refused = false → c.received ≤ 16 * c.enqueued.length
  /-- A `read` returns at least one byte. -/
  places_lt : ∀ place ∈ c.places, place < c.received

theorem valid_fresh : Valid fresh where
  received_le := Nat.le_refl _
  length_stream := by
    intro ws h
    cases h
    rfl
  record := by
    intro ws h k data hk
    cases h
    cases hk
  length_le := fun _ => Nat.le_refl _
  places_lt := List.forall_mem_nil _

theorem framed_fresh : Framed fresh where
  all := by
    intro ws h _
    cases h
    rfl
  whole := fun _ _ => .nil
  order := .nil

/-! ## Writing -/

theorem Valid.send {c : Conn} (h : c.Valid) (data : IPCData) (padding : UInt32) :
    (c.send data padding).Valid where
  received_le := by
    rw [Conn.send, List.length_append]
    exact Nat.le_add_right_of_le h.received_le
  length_stream := by
    intro ws' hws'
    obtain ⟨ws, hws, rfl⟩ := Option.map_eq_some_iff.mp hws'
    have hlen := h.length_stream ws hws
    simp only [Conn.send, List.length_append, IPCData.length_toBytes, List.length_singleton]
    omega
  record := by
    intro ws' hws' k d hk
    obtain ⟨ws, hws, rfl⟩ := Option.map_eq_some_iff.mp hws'
    have hlen := h.length_stream ws hws
    rcases Nat.lt_or_ge k ws.length with hlt | hge
    · rw [List.getElem?_append_left hlt] at hk
      have hfits : 16 ≤ (c.stream.drop (16 * k)).length := by
        rw [List.length_drop]
        omega
      rw [Conn.send, List.drop_append_of_le_length (by omega), List.take_append_of_le_length hfits]
      exact h.record ws hws k d hk
    · have hlast : k = ws.length := by
        have hk' := (List.getElem?_eq_some_iff.mp hk).1
        rw [List.length_append, List.length_singleton] at hk'
        omega
      subst hlast
      rw [List.getElem?_concat_length, Option.some.injEq] at hk
      subst hk
      rw [Conn.send, List.drop_left' hlen, List.take_of_length_le (by simp)]
      exact IPCData.ofBytes_toBytes _ _
  length_le := h.length_le
  places_lt := h.places_lt

theorem Framed.send {c : Conn} (hi : c.Valid) (h : c.Framed) (data : IPCData) (padding : UInt32) :
    (c.send data padding).Framed where
  all := by
    intro ws' hws' hroom
    obtain ⟨ws, hws, rfl⟩ := Option.map_eq_some_iff.mp hws'
    have hle : c.received / 16 ≤ ws.length := by
      have hlen := hi.length_stream ws hws
      have hrec := hi.received_le
      omega
    show c.enqueued = (ws ++ [data]).take (c.received / 16)
    rw [List.take_append_of_le_length hle]
    exact h.all ws hws hroom
  whole := by
    intro ws' hws'
    obtain ⟨ws, hws, rfl⟩ := Option.map_eq_some_iff.mp hws'
    refine (h.whole ws hws).imp fun place d => ?_
    rintro ⟨k, hplace, hk, hle⟩
    refine ⟨k, hplace, ?_, hle⟩
    rw [List.getElem?_append_left (List.getElem?_eq_some_iff.mp hk).1]
    exact hk
  order := h.order

theorem Valid.sendRaw {c : Conn} (h : c.Valid) (bytes : List UInt8) : (c.sendRaw bytes).Valid where
  received_le := by
    rw [Conn.sendRaw, List.length_append]
    exact Nat.le_add_right_of_le h.received_le
  length_stream := by
    intro ws hws
    cases hws
  record := by
    intro ws hws
    cases hws
  length_le := h.length_le
  places_lt := h.places_lt

theorem Framed.sendRaw {c : Conn} (h : c.Framed) (bytes : List UInt8) :
    (c.sendRaw bytes).Framed where
  all := by
    intro ws hws
    cases hws
  whole := by
    intro ws hws
    cases hws
  order := h.order

/-! ## Reading -/

theorem Valid.receive {c : Conn} (h : c.Valid) {n : Nat} (hpos : 0 < n) (hn : n ≤ 16)
    (havail : c.received + n ≤ c.stream.length) (pushed : Option IPCData) :
    (c.receive n pushed).Valid := by
  have hplaces : ∀ place ∈ c.places, place < c.received + n := fun place hmem =>
    (h.places_lt place hmem).trans (Nat.lt_add_of_pos_right hpos)
  cases pushed with
  | some data =>
      refine ⟨havail, h.length_stream, h.record, fun hroom => ?_, ?_⟩
      · have hle := h.length_le hroom
        simp only [Conn.receive, List.length_append, List.length_singleton]
        omega
      · intro place hmem
        rcases List.mem_append.mp hmem with hmem | hmem
        · exact hplaces place hmem
        · rw [List.mem_singleton.mp hmem]
          exact Nat.lt_add_of_pos_right hpos
  | none =>
      exact ⟨havail, h.length_stream, h.record, fun hroom => (by cases hroom), hplaces⟩

/-- What was whole stays whole. -/
theorem Whole.mono {ws : List IPCData} {received received' place : Nat} {data : IPCData}
    (h : Whole ws received place data) (hle : received ≤ received') :
    Whole ws received' place data := by
  obtain ⟨k, hplace, hk, hread⟩ := h
  exact ⟨k, hplace, hk, hread.trans hle⟩

/-- A record that found the ring full is not the client's fault. -/
theorem Framed.receive_none {c : Conn} (h : c.Framed) (n : Nat) : (c.receive n none).Framed where
  all := by
    intro ws _ hroom
    cases hroom
  whole := fun ws hws => (h.whole ws hws).imp fun _ _ hwhole => hwhole.mono (Nat.le_add_right _ _)
  order := h.order

/-- The records that were pushed end where the `read`s ended. -/
theorem Framed.received_eq {c : Conn} (hi : c.Valid) (h : c.Framed) {ws : List IPCData}
    (hws : c.written = some ws) (hroom : c.refused = false) :
    c.received = 16 * c.enqueued.length := by
  have hlen := congrArg List.length (h.all ws hws hroom)
  rw [List.length_take] at hlen
  have hstream := hi.length_stream ws hws
  have hrec := hi.received_le
  have hle := hi.length_le hroom
  omega

/-- The bytes of a record that is read whole. -/
theorem readData_of_place {c : Conn} (hi : c.Valid) {ws : List IPCData}
    (hws : c.written = some ws) {k : Nat} (hplace : c.received = 16 * k)
    (havail : c.received + 16 ≤ c.stream.length) (stack : List UInt8) :
    ws[k]? = some (c.readData 16 stack) := by
  have hstream := hi.length_stream ws hws
  have hk : k < ws.length := by omega
  have hrecord := hi.record ws hws k _ (List.getElem?_eq_getElem hk)
  have hfits : ((c.stream.drop c.received).take 16).length = 16 := by
    rw [List.length_take, List.length_drop]
    omega
  rw [readData, IPCData.ofBytes_append hfits, hplace, hrecord, List.getElem?_eq_getElem hk]

/-- A `read` whose data is pushed keeps the framing just when it returns a whole
record. -/
theorem framed_receive {c : Conn} (hi : c.Valid) (h : c.Framed) {n : Nat}
    (hn : n ≤ 16) (havail : c.received + n ≤ c.stream.length) (stack : List UInt8) :
    (c.receive n (some (c.readData n stack))).Framed ↔
      (c.written.isSome → n = 16 ∧ 16 ∣ c.received) := by
  constructor
  · intro h' hsome
    obtain ⟨ws, hws⟩ := Option.isSome_iff_exists.mp hsome
    have hreverse := List.forall₂_reverse_iff.mpr (h'.whole ws hws)
    simp only [receive, List.reverse_concat] at hreverse
    obtain ⟨k, hplace, -, hle⟩ := (List.forall₂_cons.mp hreverse).1
    exact ⟨by omega, k, hplace⟩
  · intro hwhole
    refine ⟨fun ws hws hroom => ?_, fun ws hws => ?_, ?_⟩
    · obtain ⟨rfl, -⟩ := hwhole (by rw [show c.written = some ws from hws]; rfl)
      have hstart := h.received_eq hi hws hroom
      have hdata := readData_of_place hi hws hstart havail stack
      have hnext : (c.received + 16) / 16 = c.enqueued.length + 1 := by omega
      have hprev : c.received / 16 = c.enqueued.length := by omega
      have hsame := h.all ws hws hroom
      rw [hprev] at hsame
      show c.enqueued ++ [c.readData 16 stack] = ws.take ((c.received + 16) / 16)
      rw [hnext, List.take_add_one, ← hsame, hdata]
      rfl
    · obtain ⟨rfl, k, hplace⟩ := hwhole (by rw [show c.written = some ws from hws]; rfl)
      have hold := (h.whole ws hws).imp fun _ _ hw => hw.mono (Nat.le_add_right c.received 16)
      exact List.rel_append hold (.cons ⟨k, hplace, readData_of_place hi hws hplace havail stack,
        Nat.le_refl _⟩ .nil)
    · refine List.pairwise_append.mpr ⟨h.order, List.pairwise_singleton _ _, ?_⟩
      intro place hmem place' hmem'
      rw [List.mem_singleton.mp hmem']
      exact hi.places_lt place hmem

end Conn

end IotEdge
