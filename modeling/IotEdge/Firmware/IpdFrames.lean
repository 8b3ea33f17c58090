import IotEdge.Firmware.ReceiveBuffers

/-!
# Frames from the network

The module wraps what it receives from the network in a frame: a line break, `+IPD,`,
the length in decimal, a colon, and then the bytes.  Inside the bytes the receiver
looks at nothing but their number.  So a frame is delivered whole, whatever it says,
and the receiver is ready for the next one (`takeAll_frame`).
-/

namespace IotEdge.Esp8266

open CString

/-- A frame of the module. -/
def ipdFrame (payload : List UInt8) : List UInt8 :=
  ascii "\r\n+IPD," ++ (Decimal.digits payload.length ++ 58 :: payload)

/-- A frame without the line break. -/
def ipd (payload : List UInt8) : List UInt8 :=
  ascii "+IPD," ++ (Decimal.digits payload.length ++ 58 :: payload)

namespace Receiver

variable {r : Receiver}

/-- The line break in front of a frame. -/
theorem takeAll_break (h : r.Ready) :
    r.takeAll (ascii "\r\n") = (r, []) ∧ r.FitsAll (ascii "\r\n") := by
  obtain ⟨dataFlag, len, lenBuf, i, dataBuf⟩ := r
  obtain ⟨rfl, -⟩ := h
  exact ⟨rfl, fun h => (by cases h), fun h => (by cases h), trivial⟩

/-- The beginning of a frame. -/
theorem takeAll_start (h : r.Ready) :
    r.takeAll (ascii "+IPD,") = ({ r with dataFlag := .len }, []) ∧ r.FitsAll (ascii "+IPD,") := by
  obtain ⟨dataFlag, len, lenBuf, i, dataBuf⟩ := r
  obtain ⟨rfl, -⟩ := h
  exact ⟨rfl, fun h => (by cases h), fun h => (by cases h), fun h => (by cases h),
    fun h => (by cases h), fun h => (by cases h), trivial⟩

/-- The digits of the length are stored. -/
theorem takeAll_digits (h : r.dataFlag = .len) {ds : List UInt8} (hds : 58 ∉ ds)
    (hlen : r.i + ds.length < lenBufSize) :
    ∃ r', r.takeAll ds = (r', []) ∧ r.FitsAll ds ∧ r'.dataFlag = .len ∧
      bytesOf r'.lenBuf r'.i = bytesOf r.lenBuf r.i ++ ds := by
  induction ds generalizing r with
  | nil => exact ⟨r, rfl, trivial, h, (List.append_nil _).symm⟩
  | cons c ds ih =>
      rw [List.mem_cons, not_or] at hds
      rw [List.length_cons] at hlen
      have hstep := take_digit h (Ne.symm hds.1)
      obtain ⟨r', hr', hfits, hflag, hbuf⟩ :=
        ih (r := { r with lenBuf := Function.update r.lenBuf r.i c, i := r.i + 1 }) h hds.2
          (by dsimp only; omega)
      refine ⟨r', ?_, ⟨fun _ => ?_, ?_⟩, hflag, ?_⟩
      · rw [takeAll, hstep, hr']
        rfl
      · rw [if_neg (Ne.symm hds.1)]
        omega
      · rw [hstep]
        exact hfits
      · rw [hbuf, bytesOf_update, List.append_assoc]
        rfl

/-- Nothing is asked of the bytes of a packet. -/
theorem fitsAll_payload (h : r.dataFlag = .data) {payload : List UInt8}
    (hlen : (r.i : Int) + payload.length ≤ r.len) : r.FitsAll payload := by
  induction payload generalizing r with
  | nil => trivial
  | cons c payload ih =>
      rw [List.length_cons] at hlen
      push_cast at hlen
      refine ⟨fun hflag => ?_, ?_⟩
      · rw [h] at hflag
        cases hflag
      · rcases eq_or_ne ((r.i : Int) + 1) r.len with hlast | hmore
        · have hnil : payload = [] := List.eq_nil_of_length_eq_zero (by omega)
          rw [hnil]
          trivial
        · rw [take_data h hmore]
          exact ih h (by dsimp only; push_cast; omega)

/-- A payload that the module may send. -/
def IsPayload (payload : List UInt8) : Prop := payload ≠ [] ∧ payload.length ≤ dataBufSize

/-- A length is written with few digits. -/
theorem length_digits_le {n : Nat} (h : n ≤ dataBufSize) : (Decimal.digits n).length ≤ 3 := by
  rw [Decimal.length_digits]
  exact Nat.log_lt_of_lt_pow' (by decide) (h.trans_lt (by decide))

/-- The digits of a length are read as that length. -/
theorem length_of_digits {n : Nat} (hn : n ≤ dataBufSize)
    (htext : bytesOf r.lenBuf r.i = Decimal.digits n) : r.length = n := by
  rw [length, htext, List.takeWhile_eq_self_iff.mpr, atoi,
    Scanf.strtol_digits (hn.trans_lt (by decide))]
  intro b hb
  rw [decide_eq_true_iff]
  exact Decimal.ne_of_isDigit (Decimal.isDigit_of_mem_digits hb) rfl

/-- Behind its length, a packet is delivered. -/
theorem takeAll_colon (h : r.dataFlag = .len) {payload : List UInt8} (hp : IsPayload payload)
    (hlength : r.length = payload.length) :
    ∃ r', r.takeAll (58 :: payload) = (r', [⟨payload, payload.length⟩]) ∧
      r.FitsAll (58 :: payload) ∧ r'.Ready := by
  obtain ⟨hne, hlen⟩ := hp
  have hpos := List.length_pos_of_ne_nil hne
  have hcolon := take_colon h
  rw [hlength] at hcolon
  obtain ⟨r', hr', hready⟩ := takeAll_payload (r := { r with
      lenBuf := Function.update r.lenBuf r.i 0
      len := payload.length
      dataFlag := .data
      i := 0 }) rfl hne (by simp)
  refine ⟨r', ?_, ⟨fun _ => ?_, ?_⟩, hready⟩
  · rw [takeAll, hcolon, hr']
    rfl
  · rw [if_pos rfl, hlength]
    omega
  · rw [hcolon]
    exact fitsAll_payload rfl (by simp)

/-- The header of a frame. -/
theorem takeAll_length (h : r.Ready) {n : Nat} (hn : n ≤ dataBufSize) :
    ∃ r', r.takeAll (ascii "+IPD," ++ Decimal.digits n) = (r', []) ∧
      r.FitsAll (ascii "+IPD," ++ Decimal.digits n) ∧ r'.dataFlag = .len ∧ r'.length = n := by
  have hcolon : 58 ∉ Decimal.digits n :=
    fun hmem => absurd (Decimal.isDigit_of_mem_digits hmem) (by decide)
  have hroom : r.i + (Decimal.digits n).length < lenBufSize := by
    have hdigits := length_digits_le hn
    rw [h.index, lenBufSize]
    omega
  have hempty : bytesOf r.lenBuf r.i = [] := by
    rw [h.index]
    rfl
  obtain ⟨hstart, hfits⟩ := takeAll_start h
  obtain ⟨r', hr', hfits', hflag, htext⟩ :=
    takeAll_digits (r := { r with dataFlag := .len }) rfl hcolon hroom
  dsimp only at htext
  rw [hempty, List.nil_append] at htext
  refine ⟨r', ?_, ?_, hflag, length_of_digits hn htext⟩
  · rw [takeAll_append, hstart, hr']
    rfl
  · rw [fitsAll_append, hstart]
    exact ⟨hfits, hfits'⟩

/-- A frame is delivered, and the receiver is ready for the next one. -/
theorem takeAll_frame (h : r.Ready) {payload : List UInt8} (hp : IsPayload payload) :
    ∃ r', r.takeAll (ipdFrame payload) = (r', [⟨payload, payload.length⟩]) ∧
      r.FitsAll (ipdFrame payload) ∧ r'.Ready := by
  obtain ⟨hbreak, hfits₀⟩ := takeAll_break h
  obtain ⟨r₁, hr₁, hfits₁, hflag, hlength⟩ := takeAll_length h hp.2
  obtain ⟨r₂, hr₂, hfits₂, hready⟩ := takeAll_colon hflag hp hlength
  have hframe : ipdFrame payload = ascii "\r\n" ++
      ((ascii "+IPD," ++ Decimal.digits payload.length) ++ 58 :: payload) := by
    simp [ipdFrame, ascii]
  refine ⟨r₂, ?_, ?_, hready⟩
  · rw [hframe, takeAll_append, hbreak, takeAll_append, hr₁, hr₂]
    rfl
  · rw [hframe, fitsAll_append, hbreak, fitsAll_append, hr₁]
    exact ⟨hfits₀, hfits₁, hfits₂⟩

/-- So are any number of frames. -/
theorem takeAll_frames (h : r.Ready) {payloads : List (List UInt8)}
    (hp : ∀ payload ∈ payloads, IsPayload payload) :
    ∃ r', r.takeAll (payloads.flatMap ipdFrame) =
        (r', payloads.map fun payload => ⟨payload, payload.length⟩) ∧
      r.FitsAll (payloads.flatMap ipdFrame) ∧ r'.Ready := by
  induction payloads generalizing r with
  | nil => exact ⟨r, rfl, trivial, h⟩
  | cons payload payloads ih =>
      obtain ⟨hfirst, hrest⟩ := List.forall_mem_cons.mp hp
      obtain ⟨r₁, hr₁, hfits₁, hready⟩ := takeAll_frame h hfirst
      obtain ⟨r₂, hr₂, hfits₂, hready'⟩ := ih hready hrest
      refine ⟨r₂, ?_, ?_, hready'⟩
      · rw [List.flatMap_cons, takeAll_append, hr₁, hr₂]
        rfl
      · rw [List.flatMap_cons, fitsAll_append, hr₁]
        exact ⟨hfits₁, hfits₂⟩

end Receiver

/-- Frames are delivered: for any payloads, of any content, the handler is called once
for each, in order, with its bytes and its length.  The receiver stays inside its
buffers, and is back in its first state. -/
theorem ipd_frames_delivered (payloads : List (List UInt8))
    (h : ∀ payload ∈ payloads, 1 ≤ payload.length ∧ payload.length ≤ 512) :
    let s := (payloads.flatMap ipdFrame).foldl dataHandler (init true)
    s.calls = payloads.map (fun payload => ⟨payload, payload.length⟩) ∧
      s.receiver.dataFlag = .add ∧ s.receiver.i = 0 ∧
      ∀ bytes, bytes <+: payloads.flatMap ipdFrame →
        (bytes.foldl dataHandler (init true)).receiver.Sound := by
  obtain ⟨r, hr, hfits, hready⟩ := Receiver.takeAll_frames (r := (init true).receiver) ⟨rfl, rfl⟩
    fun payload hp => ⟨List.ne_nil_of_length_pos (h payload hp).1, (h payload hp).2⟩
  obtain ⟨hreceiver, -, hcalls⟩ := foldl_dataHandler (init true) (payloads.flatMap ipdFrame)
  rw [hr] at hreceiver hcalls
  dsimp only
  rw [hreceiver, hcalls]
  refine ⟨rfl, hready.dataFlag, hready.index, fun bytes hbytes => ?_⟩
  obtain ⟨rest, hrest⟩ := hbytes
  rw [← hrest] at hfits
  rw [(foldl_dataHandler (init true) bytes).1]
  exact ((indexed_init true).takeAll (Receiver.fitsAll_append.mp hfits).1).sound

/-- A packet that looks like a header, and one behind it. -/
theorem ipd_frames_delivered_header :
    let s := ([ascii "+IPD,9:OK>", ascii "+"].flatMap ipdFrame).foldl dataHandler (init true)
    s.calls = [⟨ascii "+IPD,9:OK>", 10⟩, ⟨ascii "+", 1⟩] ∧
      s.receiver.dataFlag = .add ∧ s.receiver.i = 0 := by
  obtain ⟨hcalls, hflag, hindex, -⟩ :=
    ipd_frames_delivered [ascii "+IPD,9:OK>", ascii "+"] (by decide)
  exact ⟨hcalls, hflag, hindex⟩

end IotEdge.Esp8266
