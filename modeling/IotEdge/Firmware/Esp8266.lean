import IotEdge.Lib.Machine
import IotEdge.Lib.Scanf

/-!
# The receive interrupt of the WiFi module

`dataHandler` gets the bytes from the ESP8266 one at a time.  It does two things
with a byte.  One automaton looks for `+IPD,<length>:` and collects the bytes that
follow: the `Receiver`.  Another one looks for `OK` and `>`, which the main program
waits for: the `Matcher`.

The buffers of the receiver are functions on all indices, so that a write is also
described where the array has ended.  Whether that happens is a question of its own.
`calls` is not in the source: it lists what `wifi_handler` was called with.
-/

namespace IotEdge.Esp8266

open Scanf (strtol)

/-! ## Packets -/

/-- `data_flag`: what is expected next. -/
inductive DataFlag where
  | add
  | i
  | p
  | d
  | h
  | len
  | data
deriving DecidableEq, Repr

/-- The arguments of a call of `wifi_handler`. -/
structure Packet where
  /-- The first `len` bytes of `buf`. -/
  buf : List UInt8
  len : Int
deriving DecidableEq, Repr

/-- The variables of the `switch` on `data_flag`. -/
structure Receiver where
  dataFlag : DataFlag
  len : Int
  lenBuf : Nat → UInt8
  i : Nat
  dataBuf : Nat → UInt8

/-- `sizeof(len_buf)`. -/
def lenBufSize : Nat := 5

/-- `sizeof(data_buf)`. -/
def dataBufSize : Nat := 512

/-- The first `n` bytes of a buffer. -/
def bytesOf (buf : Nat → UInt8) (n : Nat) : List UInt8 := (List.range n).map buf

/-- `atoi`, with the `long` of 32 bits of the controller. -/
def atoi (str : List UInt8) : Int := strtol 32 str

namespace Receiver

/-- `atoi(len_buf)`, when `len_buf` is terminated at `i`. -/
def length (r : Receiver) : Int := atoi ((bytesOf r.lenBuf r.i).takeWhile (· ≠ 0))

/-- The `switch` on `data_flag`, and the call of `wifi_handler` it comes to. -/
def take (r : Receiver) (c : UInt8) : Receiver × Option Packet :=
  match r.dataFlag with
  | .add => (if c = 43 then { r with dataFlag := .i } else r, none)
  | .i => ({ r with dataFlag := if c = 73 then .p else .add }, none)
  | .p => ({ r with dataFlag := if c = 80 then .d else .add }, none)
  | .d => ({ r with dataFlag := if c = 68 then .h else .add }, none)
  | .h => ({ r with dataFlag := if c = 44 then .len else .add }, none)
  | .len =>
      if c = 58 then
        ({ r with
          lenBuf := Function.update r.lenBuf r.i 0
          len := r.length
          dataFlag := .data
          i := 0 }, none)
      else ({ r with lenBuf := Function.update r.lenBuf r.i c, i := r.i + 1 }, none)
  | .data =>
      let dataBuf := Function.update r.dataBuf r.i c
      if (r.i : Int) + 1 = r.len then
        ({ r with dataBuf := dataBuf, i := 0, dataFlag := .add },
          some ⟨bytesOf dataBuf (r.i + 1), r.len⟩)
      else ({ r with dataBuf := dataBuf, i := r.i + 1 }, none)

end Receiver

/-! ## Acknowledgements -/

/-- `flag`. -/
inductive OkState where
  | o
  | k
deriving DecidableEq, Repr

/-- The variables of the rest of `dataHandler`. -/
structure Matcher where
  flag : OkState
  /-- `ok_flag` is `1`. -/
  okFlag : Bool
deriving DecidableEq, Repr

/-- The rest of `dataHandler`. -/
def Matcher.take (m : Matcher) (c : UInt8) : Matcher :=
  if c = 62 ∨ m.okFlag = true then { m with okFlag := true }
  else
    match m.flag with
    | .o => { m with flag := if c = 79 then .k else .o }
    | .k => ⟨.o, decide (c = 75)⟩

/-! ## The interrupt -/

/-- The variables of `esp8266.c`. -/
structure State where
  /-- Those of the `switch`. -/
  receiver : Receiver
  /-- The others. -/
  matcher : Matcher
  /-- `wifi_handler` is set. -/
  wifiHandler : Bool
  /-- The calls of `wifi_handler` so far. -/
  calls : List Packet

/-- `dataHandler`. -/
def dataHandler (s : State) (c : UInt8) : State :=
  { s with
    receiver := (s.receiver.take c).1
    matcher := s.matcher.take c
    calls := if s.wifiHandler then s.calls ++ (s.receiver.take c).2.toList else s.calls }

/-- The variables at reset, with a handler or without. -/
def init (wifiHandler : Bool) : State where
  receiver := ⟨.add, 0, fun _ => 0, 0, fun _ => 0⟩
  matcher := ⟨.o, false⟩
  wifiHandler := wifiHandler
  calls := []

/-- The interrupt as a machine.  Each byte is a step. -/
def machine (wifiHandler : Bool) : Machine State UInt8 :=
  ⟨init wifiHandler, fun s c => some (dataHandler s c)⟩

theorem run_machine (wifiHandler : Bool) (bytes : List UInt8) :
    (machine wifiHandler).run bytes = some (bytes.foldl dataHandler (init wifiHandler)) := by
  induction bytes using List.reverseRecOn with
  | nil => rfl
  | append_singleton bytes c ih =>
      rw [Machine.run_concat, ih, List.foldl_append]
      rfl

/-! ## Buffers -/

theorem bytesOf_update (buf : Nat → UInt8) (n : Nat) (c : UInt8) :
    bytesOf (Function.update buf n c) (n + 1) = bytesOf buf n ++ [c] := by
  rw [bytesOf, List.range_succ, List.map_append, bytesOf]
  congr 1
  · refine List.map_congr_left fun k hk => ?_
    exact Function.update_of_ne (Nat.ne_of_lt (List.mem_range.mp hk)) _ _
  · simp

/-! ## Runs of the receiver -/

namespace Receiver

/-- The receiver after some bytes, and the packets that were completed. -/
def takeAll (r : Receiver) : List UInt8 → Receiver × List Packet
  | [] => (r, [])
  | c :: bytes =>
      (((r.take c).1.takeAll bytes).1, (r.take c).2.toList ++ ((r.take c).1.takeAll bytes).2)

/-- Nothing of a packet has been received. -/
structure Ready (r : Receiver) : Prop where
  /-- A `+` is expected. -/
  dataFlag : r.dataFlag = .add
  /-- The index is reset. -/
  index : r.i = 0

theorem takeAll_append (r : Receiver) (bytes bytes' : List UInt8) :
    r.takeAll (bytes ++ bytes') = (((r.takeAll bytes).1.takeAll bytes').1,
      (r.takeAll bytes).2 ++ ((r.takeAll bytes).1.takeAll bytes').2) := by
  induction bytes generalizing r with
  | nil => rfl
  | cons c bytes ih => simp only [List.cons_append, takeAll, ih, List.append_assoc]

/-- What one byte does, by the state that it comes in. -/
inductive Take (r : Receiver) (c : UInt8) : Receiver × Option Packet → Prop where
  /-- A byte of a header, or outside of packets. -/
  | header {flag : DataFlag} : r.dataFlag ≠ .len → r.dataFlag ≠ .data → flag ≠ .data →
      Take r c ({ r with dataFlag := flag }, none)
  /-- A byte of the length. -/
  | digit : r.dataFlag = .len → c ≠ 58 →
      Take r c ({ r with lenBuf := Function.update r.lenBuf r.i c, i := r.i + 1 }, none)
  /-- The end of the length. -/
  | colon : r.dataFlag = .len → c = 58 →
      Take r c ({ r with
        lenBuf := Function.update r.lenBuf r.i 0
        len := r.length
        dataFlag := .data
        i := 0 }, none)
  /-- A byte of the packet. -/
  | stored : r.dataFlag = .data → (r.i : Int) + 1 ≠ r.len →
      Take r c ({ r with dataBuf := Function.update r.dataBuf r.i c, i := r.i + 1 }, none)
  /-- The last byte of the packet. -/
  | completed : r.dataFlag = .data → (r.i : Int) + 1 = r.len →
      Take r c ({ r with
        dataBuf := Function.update r.dataBuf r.i c
        i := 0
        dataFlag := .add }, some ⟨bytesOf r.dataBuf r.i ++ [c], r.len⟩)

/-- A byte of a header goes on with it or not. -/
theorem take_header {r : Receiver} (h : r.dataFlag ≠ .len) (h' : r.dataFlag ≠ .data)
    (c : UInt8) : ∃ flag, flag ≠ .data ∧ r.take c = ({ r with dataFlag := flag }, none) := by
  obtain ⟨dataFlag, len, lenBuf, i, dataBuf⟩ := r
  cases dataFlag with
  | add =>
      refine ⟨if c = 43 then .i else .add, by split <;> decide, ?_⟩
      simp only [take]
      split <;> rfl
  | i => exact ⟨if c = 73 then .p else .add, by split <;> decide, rfl⟩
  | p => exact ⟨if c = 80 then .d else .add, by split <;> decide, rfl⟩
  | d => exact ⟨if c = 68 then .h else .add, by split <;> decide, rfl⟩
  | h => exact ⟨if c = 44 then .len else .add, by split <;> decide, rfl⟩
  | len => exact absurd rfl h
  | data => exact absurd rfl h'

section

variable {r : Receiver} {c : UInt8}

/-- A byte of the length. -/
theorem take_digit (h : r.dataFlag = .len) (hne : c ≠ 58) :
    r.take c = ({ r with lenBuf := Function.update r.lenBuf r.i c, i := r.i + 1 }, none) := by
  rw [take, h]
  dsimp only
  rw [if_neg hne]

/-- The end of the length. -/
theorem take_colon (h : r.dataFlag = .len) :
    r.take 58 = ({ r with
      lenBuf := Function.update r.lenBuf r.i 0
      len := r.length
      dataFlag := .data
      i := 0 }, none) := by
  rw [take, h]
  dsimp only
  rw [if_pos rfl]

/-- A byte of a packet that is not the last one. -/
theorem take_data (h : r.dataFlag = .data) (hne : (r.i : Int) + 1 ≠ r.len) :
    r.take c = ({ r with dataBuf := Function.update r.dataBuf r.i c, i := r.i + 1 }, none) := by
  rw [take, h]
  dsimp only
  rw [if_neg hne]

/-- The last byte of a packet. -/
theorem take_last (h : r.dataFlag = .data) (hlast : (r.i : Int) + 1 = r.len) :
    r.take c = ({ r with dataBuf := Function.update r.dataBuf r.i c, i := 0, dataFlag := .add },
      some ⟨bytesOf r.dataBuf r.i ++ [c], r.len⟩) := by
  rw [take, h]
  dsimp only
  rw [if_pos hlast, bytesOf_update]

end

theorem take_cases (r : Receiver) (c : UInt8) : Take r c (r.take c) := by
  rcases eq_or_ne r.dataFlag .len with hlen | hlen
  · rcases eq_or_ne c 58 with rfl | hcolon
    · rw [take_colon hlen]
      exact .colon hlen rfl
    · rw [take_digit hlen hcolon]
      exact .digit hlen hcolon
  · rcases eq_or_ne r.dataFlag .data with hdata | hdata
    · rcases eq_or_ne ((r.i : Int) + 1) r.len with hlast | hmore
      · rw [take_last hdata hlast]
        exact .completed hdata hlast
      · rw [take_data hdata hmore]
        exact .stored hdata hmore
    · obtain ⟨flag, hflag, htake⟩ := take_header hlen hdata c
      rw [htake]
      exact .header hlen hdata hflag

end Receiver

/-- What the receiver completes is what the handler is called with. -/
theorem foldl_dataHandler (s : State) (bytes : List UInt8) :
    (bytes.foldl dataHandler s).receiver = (s.receiver.takeAll bytes).1 ∧
      (bytes.foldl dataHandler s).wifiHandler = s.wifiHandler ∧
      (bytes.foldl dataHandler s).calls =
        if s.wifiHandler then s.calls ++ (s.receiver.takeAll bytes).2 else s.calls := by
  induction bytes generalizing s with
  | nil => simp [Receiver.takeAll]
  | cons c bytes ih =>
      obtain ⟨hreceiver, hhandler, hcalls⟩ := ih (dataHandler s c)
      refine ⟨hreceiver, hhandler, ?_⟩
      rw [List.foldl_cons, hcalls]
      simp only [dataHandler, Receiver.takeAll]
      split
      · rw [List.append_assoc]
      · rfl

end IotEdge.Esp8266
