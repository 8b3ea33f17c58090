import IotEdge.Firmware.IpdFrames

/-!
# Noise before a frame

Behind other bytes the receiver looks for `+IPD,` from the beginning.  When a header breaks
off it goes back to its first state, also when the byte that breaks it off is the `+` of the
next header.  That `+` is lost, and the header with it.

So headers that break off back to back are lost in turns, and a frame behind some noise is
received just when the noise ends with an even number of them (`resync_iff`).
-/

namespace IotEdge.Esp8266

open CString

/-! ## Headers that break off -/

/-- What was received of a header. -/
def DataFlag.received : DataFlag → List UInt8
  | .i => ascii "+"
  | .p => ascii "+I"
  | .d => ascii "+IP"
  | .h => ascii "+IPD"
  | _ => []

/-- The part of a header that some bytes end with. -/
def partialHeader (bytes : List UInt8) : Option DataFlag :=
  [DataFlag.i, .p, .d, .h].find? fun flag => flag.received <:+ bytes

theorem partialHeader_eq_some {bytes : List UInt8} {flag : DataFlag}
    (h : partialHeader bytes = some flag) :
    ∃ before, bytes = before ++ flag.received ∧ flag.received ≠ [] := by
  have hmem := List.mem_of_find?_eq_some h
  obtain ⟨before, rfl⟩ : flag.received <:+ bytes := by simpa using List.find?_some h
  refine ⟨before, rfl, ?_⟩
  cases flag with
  | add | len | data => exact absurd hmem (by decide)
  | i | p | d | h => decide

theorem partialHeader_eq_none {bytes : List UInt8} (h : partialHeader bytes = none)
    {flag : DataFlag} (hreceived : flag.received <:+ bytes) : flag.received = [] := by
  have hnone := List.find?_eq_none.mp h flag
  cases flag with
  | add | len | data => rfl
  | i | p | d | h => exact absurd (by simpa using hreceived) (hnone (by decide))

/-- The number of parts of headers that some bytes end with, back to back. -/
def partialHeaders (bytes : List UInt8) : Nat :=
  match h : partialHeader bytes with
  | some flag => partialHeaders (bytes.take (bytes.length - flag.received.length)) + 1
  | none => 0
termination_by bytes.length
decreasing_by
  obtain ⟨before, rfl, hne⟩ := partialHeader_eq_some h
  have hpos := List.length_pos_of_ne_nil hne
  simp only [List.length_take, List.length_append]
  omega

theorem partialHeaders_of_eq_some {bytes : List UInt8} {flag : DataFlag}
    (h : partialHeader bytes = some flag) : partialHeaders bytes =
      partialHeaders (bytes.take (bytes.length - flag.received.length)) + 1 := by
  rw [partialHeaders]
  split
  next flag' h' =>
    rw [h, Option.some.injEq] at h'
    rw [h']
  next hnone =>
    rw [h] at hnone
    cases hnone

theorem partialHeaders_of_eq_none {bytes : List UInt8} (h : partialHeader bytes = none) :
    partialHeaders bytes = 0 := by
  rw [partialHeaders]
  split
  next flag hflag =>
    rw [h] at hflag
    cases hflag
  next => rfl

/-- No `+IPD,` begins before the one behind the bytes. -/
def NoEarlierHeader (noise : List UInt8) : Prop :=
  ∀ before, before ++ ascii "+IPD," <+: noise ++ ascii "+IPD," → before = noise

theorem noEarlierHeader_iff {noise : List UInt8} : NoEarlierHeader noise ↔
    ∀ n < noise.length, ¬ ascii "+IPD," <+: (noise ++ ascii "+IPD,").drop n := by
  constructor
  · rintro h n hn ⟨after, hafter⟩
    have hbefore := h ((noise ++ ascii "+IPD,").take n)
      ⟨after, by rw [List.append_assoc, hafter, List.take_append_drop]⟩
    have hlength := congrArg List.length hbefore
    rw [List.length_take, List.length_append] at hlength
    omega
  · rintro h before ⟨after, hafter⟩
    have hlength := congrArg List.length hafter
    simp only [List.length_append] at hlength
    rw [List.append_assoc] at hafter
    by_cases hbefore : before.length < noise.length
    · exact absurd ⟨after, by rw [← hafter, List.drop_left]⟩ (h before.length hbefore)
    · exact (List.append_inj hafter (by omega)).1

instance (noise : List UInt8) : Decidable (NoEarlierHeader noise) :=
  decidable_of_iff _ noEarlierHeader_iff.symm

theorem NoEarlierHeader.not_infix {noise : List UInt8} (h : NoEarlierHeader noise) :
    ¬ ascii "+IPD," <:+: noise := by
  rintro ⟨before, after, rfl⟩
  have hbefore := congrArg List.length (h before ⟨after ++ ascii "+IPD,", by simp⟩)
  simp only [List.length_append] at hbefore
  have : (ascii "+IPD,").length = 5 := rfl
  omega

/-! ## The receiver in the noise -/

/-- The state behind a byte outside of packets. -/
def DataFlag.next (flag : DataFlag) (c : UInt8) : DataFlag :=
  match flag with
  | .add => if c = 43 then .i else .add
  | .i => if c = 73 then .p else .add
  | .p => if c = 80 then .d else .add
  | .d => if c = 68 then .h else .add
  | .h => if c = 44 then .len else .add
  | flag => flag

theorem Receiver.take_next {r : Receiver} (h : r.dataFlag ≠ .len) (h' : r.dataFlag ≠ .data)
    (c : UInt8) : r.take c = ({ r with dataFlag := r.dataFlag.next c }, none) := by
  obtain ⟨dataFlag, len, lenBuf, i, dataBuf⟩ := r
  cases dataFlag with
  | add =>
      simp only [take, DataFlag.next]
      split <;> rfl
  | i | p | d | h => rfl
  | len => exact absurd rfl h
  | data => exact absurd rfl h'

/-- Noise leaves the receiver inside a header that it ends with. -/
structure InHeader (noise : List UInt8) (flag : DataFlag) : Prop where
  not_len : flag ≠ .len
  not_data : flag ≠ .data
  received : flag.received <:+ noise

/-- One byte more. -/
theorem InHeader.next {noise : List UInt8} {flag : DataFlag} (h : InHeader noise flag) {c : UInt8}
    (hno : ¬ ascii "+IPD," <:+: noise ++ [c]) : InHeader (noise ++ [c]) (flag.next c) := by
  have hmore : ∀ d, d = c → flag.received ++ [d] <:+ noise ++ [c] := by
    rintro d rfl
    obtain ⟨before, rfl⟩ := h.received
    exact ⟨before, (List.append_assoc ..).symm⟩
  have hadd : InHeader (noise ++ [c]) .add := ⟨by decide, by decide, List.nil_suffix⟩
  cases flag with
  | add =>
      rw [DataFlag.next]
      split
      next hc => exact ⟨by decide, by decide, hmore 43 hc.symm⟩
      next => exact hadd
  | i =>
      rw [DataFlag.next]
      split
      next hc => exact ⟨by decide, by decide, hmore 73 hc.symm⟩
      next => exact hadd
  | p =>
      rw [DataFlag.next]
      split
      next hc => exact ⟨by decide, by decide, hmore 80 hc.symm⟩
      next => exact hadd
  | d =>
      rw [DataFlag.next]
      split
      next hc => exact ⟨by decide, by decide, hmore 68 hc.symm⟩
      next => exact hadd
  | h =>
      rw [DataFlag.next]
      split
      next hc => exact absurd (hmore 44 hc.symm).isInfix hno
      next => exact hadd
  | len => exact absurd rfl h.not_len
  | data => exact absurd rfl h.not_data

theorem inHeader_foldl {noise : List UInt8} (hno : ¬ ascii "+IPD," <:+: noise) :
    InHeader noise (noise.foldl DataFlag.next .add) := by
  induction noise using List.reverseRecOn with
  | nil => exact ⟨by decide, by decide, List.nil_suffix⟩
  | append_singleton noise c ih =>
      have hno' : ¬ ascii "+IPD," <:+: noise := fun h =>
        hno (h.trans (List.prefix_append _ _).isInfix)
      rw [List.foldl_append]
      exact (ih hno').next hno

/-- Noise changes the state only. -/
theorem Receiver.takeAll_noise {r : Receiver} (h : r.dataFlag = .add) {noise : List UInt8}
    (hno : ¬ ascii "+IPD," <:+: noise) :
    r.takeAll noise = ({ r with dataFlag := noise.foldl DataFlag.next .add }, []) := by
  induction noise using List.reverseRecOn with
  | nil => rw [List.foldl_nil, ← h, takeAll]
  | append_singleton noise c ih =>
      have hno' : ¬ ascii "+IPD," <:+: noise := fun h =>
        hno (h.trans (List.prefix_append _ _).isInfix)
      have hin := inHeader_foldl hno'
      rw [takeAll_append, ih hno', takeAll, take_next hin.not_len hin.not_data, List.foldl_append]
      rfl

/-- A part of a header leads into the header from the first state, and out of any other. -/
theorem foldl_received {flag flag' : DataFlag} (h : flag ≠ .len) (h' : flag ≠ .data)
    (hne : flag'.received ≠ []) :
    flag'.received.foldl DataFlag.next flag = .add ↔ flag ≠ .add := by
  cases flag' with
  | add | len | data => exact absurd rfl hne
  | i | p | d | h =>
      cases flag with
      | len => exact absurd rfl h
      | data => exact absurd rfl h'
      | add | i | p | d | h => decide

/-- The receiver is in its first state behind an even number of headers that broke off. -/
theorem foldl_next_eq_add_iff {noise : List UInt8} (hno : ¬ ascii "+IPD," <:+: noise) :
    noise.foldl DataFlag.next .add = .add ↔ Even (partialHeaders noise) := by
  induction noise using partialHeaders.induct with
  | case1 noise flag hflag ih =>
      obtain ⟨before, rfl, hne⟩ := partialHeader_eq_some hflag
      have hbefore : (before ++ flag.received).take
          ((before ++ flag.received).length - flag.received.length) = before := by
        rw [List.length_append, Nat.add_sub_cancel, List.take_left]
      rw [hbefore] at ih
      have hno' : ¬ ascii "+IPD," <:+: before := fun h =>
        hno (h.trans (List.prefix_append _ _).isInfix)
      have hin := inHeader_foldl hno'
      rw [List.foldl_append, foldl_received hin.not_len hin.not_data hne,
        partialHeaders_of_eq_some hflag, hbefore, Nat.even_add_one, ← ih hno']
  | case2 noise hnone =>
      have hin := inHeader_foldl hno
      rw [partialHeaders_of_eq_none hnone]
      refine iff_of_true ?_ (by decide)
      have hreceived := partialHeader_eq_none hnone hin.received
      have hlen := hin.not_len
      have hdata := hin.not_data
      generalize noise.foldl DataFlag.next .add = flag at hreceived hlen hdata
      cases flag with
      | add => rfl
      | i | p | d | h => cases hreceived
      | len => exact absurd rfl hlen
      | data => exact absurd rfl hdata

/-! ## A frame behind the noise -/

/-- Outside of packets the index is reset, and inside fewer bytes were counted than
received. -/
structure Receiver.Counted (r : Receiver) (received : Nat) : Prop where
  reset : r.dataFlag ≠ .len → r.dataFlag ≠ .data → r.i = 0
  count : r.dataFlag = .len ∨ r.dataFlag = .data → r.i < received

/-- One byte more. -/
theorem Receiver.Counted.take {r : Receiver} {received : Nat} (h : r.Counted received) (c : UInt8) :
    (r.take c).1.Counted (received + 1) := by
  have hstep := r.take_cases c
  generalize r.take c = next at hstep
  cases hstep with
  | header hlen hdata hflag =>
      have hi := h.reset hlen hdata
      exact ⟨fun _ _ => hi, fun _ => by dsimp only; omega⟩
  | digit hlen =>
      have hi := h.count (.inl hlen)
      exact ⟨fun hno => absurd hlen hno, fun _ => by dsimp only; omega⟩
  | colon => exact ⟨fun _ _ => rfl, fun _ => Nat.succ_pos received⟩
  | stored hdata =>
      have hi := h.count (.inr hdata)
      exact ⟨fun _ hno => absurd hdata hno, fun _ => by dsimp only; omega⟩
  | completed => exact ⟨fun _ _ => rfl, fun hflag => by rcases hflag with h | h <;> cases h⟩

theorem Receiver.Counted.takeAll {r : Receiver} {received : Nat} (h : r.Counted received)
    (bytes : List UInt8) : (r.takeAll bytes).1.Counted (received + bytes.length) := by
  induction bytes generalizing r received with
  | nil => exact h
  | cons c bytes ih =>
      rw [Receiver.takeAll, List.length_cons, Nat.add_comm bytes.length, ← Nat.add_assoc]
      exact ih (h.take c)

/-- A packet is shorter than what was received before its end. -/
theorem Receiver.Counted.length_le {r : Receiver} {received : Nat} (h : r.Counted received)
    {c : UInt8} {packet : Packet} (hpacket : (r.take c).2 = some packet) :
    packet.buf.length ≤ received := by
  have hstep := r.take_cases c
  generalize r.take c = next at hstep hpacket
  cases hstep with
  | header | digit | colon | stored => cases hpacket
  | completed hdata =>
      cases hpacket
      have hi := h.count (.inr hdata)
      simp only [List.length_append, bytesOf, List.length_map, List.length_range,
        List.length_singleton]
      omega

/-- The last of the bytes makes the receiver call the handler. -/
def Delivers (s : State) (bytes : List UInt8) (packet : Packet) : Prop :=
  ∃ before c, bytes = before ++ [c] ∧ (bytes.foldl dataHandler s).calls =
    (before.foldl dataHandler s).calls ++ [packet]

/-- With a handler, it is the packet that the receiver completes. -/
theorem delivers_iff {s : State} (hhandler : s.wifiHandler = true) {before : List UInt8} {c : UInt8}
    {packet : Packet} :
    Delivers s (before ++ [c]) packet ↔
      ((s.receiver.takeAll before).1.take c).2 = some packet := by
  obtain ⟨hreceiver, hset, -⟩ := foldl_dataHandler s before
  have hcalls : ((before ++ [c]).foldl dataHandler s).calls =
      (before.foldl dataHandler s).calls ++ ((s.receiver.takeAll before).1.take c).2.toList := by
    rw [List.foldl_append, List.foldl_cons, List.foldl_nil, dataHandler, hset, if_pos hhandler,
      hreceiver]
  constructor
  · rintro ⟨before', c', heq, hdelivers⟩
    obtain ⟨rfl, -⟩ := List.append_inj' heq rfl
    rw [hcalls, List.append_cancel_left_eq] at hdelivers
    cases hcompleted : ((s.receiver.takeAll before).1.take c).2 with
    | none =>
        rw [hcompleted] at hdelivers
        cases hdelivers
    | some packet' =>
        rw [hcompleted] at hdelivers
        cases hdelivers
        rfl
  · intro hcompleted
    refine ⟨before, c, rfl, ?_⟩
    rw [hcalls, hcompleted]
    rfl

/-- From its first state the receiver completes the packet of a frame. -/
theorem Receiver.take_ipd {r : Receiver} (h : r.Ready) {payload : List UInt8} {c : UInt8}
    (hlen : payload.length + 1 ≤ dataBufSize) :
    ((r.takeAll (ascii "+IPD," ++ (Decimal.digits (payload.length + 1) ++ 58 :: payload))).1.take
      c).2 = some ⟨payload ++ [c], ((payload.length + 1 : Nat) : Int)⟩ := by
  obtain ⟨r₁, hr₁, -, hflag, hlength⟩ := takeAll_length h hlen
  have hcolon := take_colon hflag
  rw [hlength] at hcolon
  obtain ⟨r₂, hr₂, hflag₂, hlen₂, hi₂, hbuf₂⟩ := takeAll_stored (r := { r₁ with
      lenBuf := Function.update r₁.lenBuf r₁.i 0
      len := ((payload.length + 1 : Nat) : Int)
      dataFlag := .data
      i := 0 }) rfl payload (by push_cast; omega)
  have hlast : (r₂.i : Int) + 1 = r₂.len := by
    rw [hi₂, hlen₂]
    push_cast
    omega
  rw [← List.append_assoc, takeAll_append, hr₁, takeAll, hcolon, hr₂, take_last hflag₂ hlast, hbuf₂,
    hlen₂]
  rfl

/-- Inside a header a `+` leads back to the first state. -/
theorem DataFlag.next_plus {flag : DataFlag} (hlen : flag ≠ .len) (hdata : flag ≠ .data)
    (hadd : flag ≠ .add) : flag.next 43 = .add := by
  cases flag with
  | add => exact absurd rfl hadd
  | len => exact absurd rfl hlen
  | data => exact absurd rfl hdata
  | i | p | d | h => rfl

/-- In the first state nothing but a `+` matters. -/
theorem Receiver.takeAll_of_not_mem {r : Receiver} (h : r.dataFlag = .add) {bytes : List UInt8}
    (hplus : 43 ∉ bytes) : (r.takeAll bytes).1 = r := by
  have hadd : r.dataFlag ≠ .len ∧ r.dataFlag ≠ .data := by simp [h]
  induction bytes with
  | nil => rfl
  | cons c bytes ih =>
      rw [List.mem_cons, not_or] at hplus
      have hstay : r.dataFlag.next c = r.dataFlag := by
        rw [h, DataFlag.next, if_neg (Ne.symm hplus.1)]
      rw [takeAll, take_next hadd.1 hadd.2, hstay]
      exact ih hplus.2

/-- Inside a header the header of a frame is lost with its `+`. -/
theorem Receiver.takeAll_lost {r : Receiver} (hi : r.i = 0) (hlen : r.dataFlag ≠ .len)
    (hdata : r.dataFlag ≠ .data) (hadd : r.dataFlag ≠ .add) (n : Nat) :
    (r.takeAll (ascii "+IPD," ++ (Decimal.digits n ++ [58]))).1.Ready := by
  have hdigits : (43 : UInt8) ∉ Decimal.digits n := fun hmem =>
    absurd (Decimal.isDigit_of_mem_digits hmem) (by decide)
  have hplus : 43 ∉ ascii "IPD," ++ (Decimal.digits n ++ [58]) := by
    rw [List.mem_append, List.mem_append, not_or, not_or]
    exact ⟨by decide, hdigits, by decide⟩
  have hheader : ascii "+IPD," = 43 :: ascii "IPD," := by decide
  rw [hheader, List.cons_append, takeAll, take_next hlen hdata,
    DataFlag.next_plus hlen hdata hadd]
  dsimp only
  rw [takeAll_of_not_mem rfl hplus]
  exact ⟨rfl, hi⟩

/-- So is the frame: what is received of it is too short for its packet. -/
theorem Receiver.take_ipd_lost {r : Receiver} (hi : r.i = 0) (hlen : r.dataFlag ≠ .len)
    (hdata : r.dataFlag ≠ .data) (hadd : r.dataFlag ≠ .add) {payload : List UInt8} {c : UInt8}
    {packet : Packet}
    (h : ((r.takeAll (ascii "+IPD," ++ (Decimal.digits (payload.length + 1) ++
      58 :: payload))).1.take c).2 = some packet) : packet.buf.length ≤ payload.length := by
  have hready := takeAll_lost hi hlen hdata hadd (payload.length + 1)
  have hsplit : ascii "+IPD," ++ (Decimal.digits (payload.length + 1) ++ 58 :: payload) =
      (ascii "+IPD," ++ (Decimal.digits (payload.length + 1) ++ [58])) ++ payload := by
    rw [List.append_assoc, List.append_assoc, List.singleton_append]
  rw [hsplit, takeAll_append] at h
  generalize (r.takeAll (ascii "+IPD," ++ (Decimal.digits (payload.length + 1) ++ [58]))).1 = r'
    at hready h
  have hstart : r'.Counted 0 := by
    refine ⟨fun _ _ => hready.index, fun hflag => ?_⟩
    rw [hready.dataFlag] at hflag
    rcases hflag with hflag | hflag <;> cases hflag
  have hle := (hstart.takeAll payload).length_le h
  rwa [Nat.zero_add] at hle

/-- In every state a handler stays set, and the index is reset outside of packets. -/
theorem counted_of_reachable {s : State} (h : (machine true).Reachable s) :
    s.wifiHandler = true ∧ ∃ received, s.receiver.Counted received := by
  have hinit : (init true).receiver.Counted 0 :=
    ⟨fun _ _ => rfl, fun hflag => by rcases hflag with hflag | hflag <;> cases hflag⟩
  refine h.invariant
    (I := fun s => s.wifiHandler = true ∧ ∃ received, s.receiver.Counted received)
    ⟨rfl, 0, hinit⟩ ?_
  rintro s c s' ⟨hhandler, received, hcounted⟩ hs
  cases hs
  exact ⟨hhandler, received + 1, hcounted.take c⟩

/-- The first frame behind some noise is received, just when the noise ends with an even
number of headers that broke off. -/
theorem resync_iff {s : State} (h : (machine true).Reachable s) (hadd : s.receiver.dataFlag = .add)
    {noise payload : List UInt8} (hnoise : NoEarlierHeader noise)
    (hpayload : 1 ≤ payload.length ∧ payload.length ≤ 512) :
    Delivers s (noise ++ ipd payload) ⟨payload, payload.length⟩ ↔ Even (partialHeaders noise) := by
  obtain ⟨hhandler, _, hcounted⟩ := counted_of_reachable h
  have hno := hnoise.not_infix
  have hi : s.receiver.i = 0 := hcounted.reset (by simp [hadd]) (by simp [hadd])
  have hin := inHeader_foldl hno
  have hafter := Receiver.takeAll_noise hadd hno
  rw [← foldl_next_eq_add_iff hno]
  generalize noise.foldl DataFlag.next .add = flag at hin hafter
  obtain ⟨payload, c, rfl⟩ := (List.eq_nil_or_concat' payload).resolve_left
    (List.ne_nil_of_length_pos hpayload.1)
  rw [List.length_append, List.length_singleton] at hpayload ⊢
  have hbytes : noise ++ ipd (payload ++ [c]) = (noise ++
      (ascii "+IPD," ++ (Decimal.digits (payload.length + 1) ++ 58 :: payload))) ++ [c] := by
    rw [ipd, List.length_append, List.length_singleton, ← List.cons_append]
    simp only [List.append_assoc]
  rw [hbytes, delivers_iff hhandler, Receiver.takeAll_append, hafter]
  dsimp only
  rcases eq_or_ne flag .add with rfl | hflag
  · have hready : Receiver.Ready { s.receiver with dataFlag := .add } := ⟨rfl, hi⟩
    have hfits : payload.length + 1 ≤ dataBufSize := hpayload.2
    exact iff_of_true (Receiver.take_ipd hready hfits) rfl
  · refine iff_of_false (fun hcompleted => ?_) hflag
    have hle := Receiver.take_ipd_lost (r := { s.receiver with dataFlag := flag }) hi hin.not_len
      hin.not_data hflag hcompleted
    rw [List.length_append, List.length_singleton] at hle
    exact Nat.not_succ_le_self _ hle

/-- Headers that break off twice, and then a frame. -/
theorem resync_iff_twice :
    Delivers (init true) (ascii "+IP+I" ++ ipd (ascii "ON")) ⟨ascii "ON", 2⟩ := by
  have hfirst : partialHeader (ascii "+IP+I") = some .p := by decide
  have hsecond : partialHeader (ascii "+IP") = some .d := by decide
  have hthird : partialHeader [] = none := by decide
  have htake : (ascii "+IP+I").take ((ascii "+IP+I").length - DataFlag.p.received.length) =
      ascii "+IP" := by decide
  have htake' : (ascii "+IP").take ((ascii "+IP").length - DataFlag.d.received.length) = [] := by
    decide
  have hcount : partialHeaders (ascii "+IP+I") = 2 := by
    rw [partialHeaders_of_eq_some hfirst, htake, partialHeaders_of_eq_some hsecond, htake',
      partialHeaders_of_eq_none hthird]
  have heven : Even (partialHeaders (ascii "+IP+I")) := by
    rw [hcount]
    decide
  have hinit : (machine true).Reachable (init true) := Machine.Reachable.init
  exact (resync_iff hinit rfl (by decide) (by decide)).mpr heven

/-- Behind one `+` a frame is lost. -/
theorem frame_lost : ¬ ∀ s : State, (machine true).Reachable s → s.receiver.dataFlag = .add →
    ∀ noise payload : List UInt8, NoEarlierHeader noise →
      1 ≤ payload.length ∧ payload.length ≤ 512 →
        Delivers s (noise ++ ipd payload) ⟨payload, payload.length⟩ := by
  intro h
  have hdelivers : Delivers (init true) (ascii "++IPD,1:" ++ ascii "x") ⟨ascii "x", 1⟩ :=
    h (init true) (Machine.Reachable.init (m := machine true)) rfl (ascii "+") (ascii "x")
      (by decide) (by decide)
  rw [show ascii "x" = [120] from rfl, delivers_iff rfl] at hdelivers
  exact absurd hdelivers (by decide)

end IotEdge.Esp8266
