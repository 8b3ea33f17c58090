import IotEdge.Firmware.Esp8266

/-!
# The buffers of the receiver

The length of a packet is a text that anyone can send.  `len_buf` has room for four
bytes of it and a terminator, and `data_buf` for 512 bytes.  `dataHandler` compares
neither with anything.  A length field of five bytes is written past its array, and a
length of `0` is never reached by an index that is counted up.

`receive_buffers_iff` is the exact condition on the bytes.  It is only about length
fields: everything else is skipped or counted.
-/

namespace IotEdge.Esp8266

namespace Receiver

/-- The indices are inside their arrays, and a packet ends when it should. -/
structure Sound (r : Receiver) : Prop where
  /-- The length field has room, also for the terminator. -/
  len_index : r.dataFlag = .len → r.i < lenBufSize
  /-- The bytes of the packet have room. -/
  data_index : r.dataFlag = .data → (r.i : Int) < r.len ∧ r.len ≤ dataBufSize
  /-- The packet goes on until `len` bytes of it were received. -/
  data_left : r.dataFlag = .data → ∀ payload : List UInt8,
    (r.i : Int) + payload.length ≤ r.len →
      ((r.takeAll payload).1.dataFlag = .data ↔ (r.i : Int) + payload.length < r.len)

/-- In a length field there is room for the byte, or it is the colon behind a length
that a packet can have. -/
def FitsBuffers (r : Receiver) (c : UInt8) : Prop :=
  r.dataFlag = .len →
    if c = 58 then 0 < r.length ∧ r.length ≤ dataBufSize else r.i + 1 < lenBufSize

instance (r : Receiver) (c : UInt8) : Decidable (r.FitsBuffers c) :=
  inferInstanceAs (Decidable (_ → _))

/-- The indices are inside their arrays, and outside of a packet the index is reset. -/
structure Indexed (r : Receiver) : Prop where
  /-- The length field has room. -/
  len_index : r.dataFlag = .len → r.i < lenBufSize
  /-- The bytes of the packet have room. -/
  data_index : r.dataFlag = .data → (r.i : Int) < r.len ∧ r.len ≤ dataBufSize
  /-- The index is reset. -/
  reset : r.dataFlag ≠ .len → r.dataFlag ≠ .data → r.i = 0

variable {r : Receiver}

/-! ## The bytes of a packet -/

/-- The bytes of a packet are stored while there are more to come. -/
theorem takeAll_stored (h : r.dataFlag = .data) (payload : List UInt8)
    (hlen : (r.i : Int) + payload.length < r.len) :
    ∃ r', r.takeAll payload = (r', []) ∧ r'.dataFlag = .data ∧ r'.len = r.len ∧
      r'.i = r.i + payload.length ∧
      bytesOf r'.dataBuf r'.i = bytesOf r.dataBuf r.i ++ payload := by
  induction payload generalizing r with
  | nil => exact ⟨r, rfl, h, rfl, rfl, (List.append_nil _).symm⟩
  | cons c payload ih =>
      rw [List.length_cons] at hlen
      push_cast at hlen
      have hstep := take_data (c := c) h (by omega)
      obtain ⟨r', hr', hflag, hlen', hi, hbuf⟩ := ih
        (r := { r with dataBuf := Function.update r.dataBuf r.i c, i := r.i + 1 }) h
        (by dsimp only; push_cast; omega)
      refine ⟨r', ?_, hflag, hlen', ?_, ?_⟩
      · rw [takeAll, hstep, hr']
        rfl
      · rw [hi, List.length_cons, Nat.add_right_comm, Nat.add_assoc]
      · rw [hbuf, bytesOf_update, List.append_assoc]
        rfl

/-- Until then the packet goes on. -/
theorem takeAll_pending (h : r.dataFlag = .data) {payload : List UInt8}
    (hlen : (r.i : Int) + payload.length < r.len) :
    (r.takeAll payload).1.dataFlag = .data := by
  obtain ⟨r', hr', hflag, -⟩ := takeAll_stored h payload hlen
  rw [hr']
  exact hflag

/-- The last byte completes the packet. -/
theorem takeAll_payload (h : r.dataFlag = .data) {payload : List UInt8} (hne : payload ≠ [])
    (hlen : (r.i : Int) + payload.length = r.len) :
    ∃ r', r.takeAll payload = (r', [⟨bytesOf r.dataBuf r.i ++ payload, r.len⟩]) ∧ r'.Ready := by
  obtain ⟨before, c, rfl⟩ := (List.eq_nil_or_concat' payload).resolve_left hne
  rw [List.length_append, List.length_singleton] at hlen
  push_cast at hlen
  obtain ⟨r', hr', hflag, hlen', hi, hbuf⟩ := takeAll_stored h before (by omega)
  have hlast : (r'.i : Int) + 1 = r'.len := by
    rw [hi, hlen']
    push_cast
    omega
  refine ⟨{ r' with dataBuf := Function.update r'.dataBuf r'.i c, i := 0, dataFlag := .add }, ?_,
    ⟨rfl, rfl⟩⟩
  rw [takeAll_append, hr', takeAll, take_last hflag hlast, hbuf, hlen', List.append_assoc]
  rfl

/-- Sound is all that follows from the indices. -/
theorem Indexed.sound (h : r.Indexed) : r.Sound := by
  refine ⟨h.len_index, h.data_index, fun hdata payload hle => ?_⟩
  obtain ⟨hlt, -⟩ := h.data_index hdata
  rcases Int.lt_or_eq_of_le hle with hmore | heq
  · exact iff_of_true (takeAll_pending hdata hmore) hmore
  · have hne : payload ≠ [] := by
      rintro rfl
      simp only [List.length_nil] at heq
      push_cast at heq
      omega
    obtain ⟨r', hr', hready⟩ := takeAll_payload hdata hne heq
    refine iff_of_false ?_ (by omega)
    rw [hr', hready.dataFlag]
    exact DataFlag.noConfusion

/-! ## One byte -/

/-- A byte that fits keeps the indices. -/
theorem Indexed.take (h : r.Indexed) {c : UInt8} (hc : r.FitsBuffers c) :
    (r.take c).1.Indexed := by
  have hstep := r.take_cases c
  generalize r.take c = next at hstep
  cases hstep with
  | header hlen hdata hflag =>
      have hi := h.reset hlen hdata
      refine ⟨fun _ => ?_, fun h => absurd h hflag, fun _ _ => hi⟩
      show r.i < lenBufSize
      rw [hi]
      decide
  | digit hlen hcolon =>
      have hfits := hc hlen
      rw [if_neg hcolon] at hfits
      refine ⟨fun _ => hfits, fun h => ?_, fun h => absurd hlen h⟩
      rw [hlen] at h
      cases h
  | colon hlen hcolon =>
      have hfits := hc hlen
      rw [if_pos hcolon] at hfits
      exact ⟨fun h => (by cases h), fun _ => hfits, fun _ h => absurd rfl h⟩
  | stored hdata hmore =>
      obtain ⟨hlt, hle⟩ := h.data_index hdata
      refine ⟨fun h => ?_, fun _ => ⟨?_, hle⟩, fun _ h => absurd hdata h⟩
      · rw [hdata] at h
        cases h
      · show ((r.i + 1 : Nat) : Int) < r.len
        push_cast
        omega
  | completed => exact ⟨fun h => (by cases h), fun h => (by cases h), fun _ _ => rfl⟩

/-- A byte that does not fit breaks them. -/
theorem not_sound_of_not_fits {c : UInt8} (hc : ¬ r.FitsBuffers c) : ¬ (r.take c).1.Sound := by
  rw [FitsBuffers, Classical.not_imp] at hc
  obtain ⟨hlen, hbad⟩ := hc
  intro hsound
  split at hbad
  next hcolon =>
    subst hcolon
    rw [take_colon hlen] at hsound
    exact hbad (hsound.data_index rfl)
  next hcolon =>
    rw [take_digit hlen hcolon] at hsound
    exact hbad (hsound.len_index hlen)

/-! ## Several bytes -/

/-- Every byte of a text fits when it comes. -/
def FitsAll (r : Receiver) : List UInt8 → Prop
  | [] => True
  | c :: bytes => r.FitsBuffers c ∧ (r.take c).1.FitsAll bytes

theorem fitsAll_append {bytes bytes' : List UInt8} :
    r.FitsAll (bytes ++ bytes') ↔ r.FitsAll bytes ∧ (r.takeAll bytes).1.FitsAll bytes' := by
  induction bytes generalizing r with
  | nil => simp [FitsAll, takeAll]
  | cons c bytes ih => simp only [List.cons_append, FitsAll, takeAll, ih, and_assoc]

/-- Bytes that fit keep the indices. -/
theorem Indexed.takeAll (h : r.Indexed) {bytes : List UInt8} (hbytes : r.FitsAll bytes) :
    (r.takeAll bytes).1.Indexed := by
  induction bytes generalizing r with
  | nil => exact h
  | cons c bytes ih => exact ih (h.take hbytes.1) hbytes.2

end Receiver

/-! ## Streams -/

theorem indexed_init (wifiHandler : Bool) : (init wifiHandler).receiver.Indexed :=
  ⟨fun h => (by cases h), fun h => (by cases h), fun _ _ => rfl⟩

/-- On any stream of bytes, the receiver stays inside its buffers, and takes each packet
to its end, just when every byte of a length field fits and every length is one that a
packet can have. -/
theorem receive_buffers_iff (wifiHandler : Bool) (bytes : List UInt8) :
    (machine wifiHandler).Always bytes (fun s => s.receiver.Sound) ↔
      (machine wifiHandler).EachStep bytes fun s c => s.receiver.FitsBuffers c := by
  refine Machine.always_iff_eachStep_of_invariant (I := fun s => s.receiver.Indexed)
    (indexed_init wifiHandler) (fun h => h.sound) ?_ ?_ (run_machine wifiHandler bytes)
  · intro s c s' h hs hc
    cases hs
    exact h.take hc
  · intro s c s' _ hs hc
    cases hs
    exact Receiver.not_sound_of_not_fits hc

/-- Five digits are too many. -/
theorem long_length_overruns :
    ¬ ∀ bytes, (machine true).Always bytes fun s => s.receiver.Sound := by
  intro h
  have hrun := run_machine true (CString.ascii "+IPD,12345")
  have hsound := h _ _ (List.prefix_refl _) _ hrun
  exact absurd (hsound.len_index (by decide)) (by decide)

end IotEdge.Esp8266
