import IotEdge.Lib.Printf
import IotEdge.Gateway.UdpGrammar

/-!
# Sensor reports

`send_sensor_data` of the firmware writes a record as a JSON object on one line, the
value with one decimal.  The gateway reads it with the third of its formats.

The value goes over the line as a decimal `d`, and the gateway stores the double
nearest to `d` (`firmware_record_enqueued`).
-/

namespace IotEdge

open Scanf CString Printf Binary64
open Literal (Number Longest readSign readNumber longest_iff isE)
open Decimal (isDigit stopsAt_cons)

/-- `send_sensor_data`: what is written to `buf`.  The `float` is passed as a double. -/
def sendSensorData (sensorId : UInt32) (dataVal : Bits) : List UInt8 :=
  ascii "\x7b\"id\":" ++ (Decimal.digits sensorId.toNat ++ (ascii ", \"data\":" ++
    (printFixed 1 dataVal ++ ascii "\x7d\r\n")))

variable {lib : Library} {sensorId : UInt32} {v : Bits}

/-- A number is written as it is read. -/
theorem writesId_digits (sensorId : UInt32) :
    WritesId (Decimal.digits sensorId.toNat) sensorId where
  ne_nil := Decimal.digits_ne_nil _
  isDigit_of_mem := fun _ h => Decimal.isDigit_of_mem_digits h
  value_eq := Decimal.value_digits _

/-- The bytes of a report. -/
theorem mem_sendSensorData {b : UInt8} (hv : isFinite v = true)
    (h : b ∈ sendSensorData sensorId v) :
    isDigit b = true ∨ b ∈ ascii "\x7b\"id:, dat-.\x7d\r\n" := by
  have hascii : ∀ {w : List UInt8}, w ⊆ ascii "\x7b\"id:, dat-.\x7d\r\n" → b ∈ w →
      isDigit b = true ∨ b ∈ ascii "\x7b\"id:, dat-.\x7d\r\n" := fun hsub hb => .inr (hsub hb)
  rw [sendSensorData, List.mem_append, List.mem_append, List.mem_append, List.mem_append] at h
  rcases h with hopen | hid | hdata | hvalue | hclose
  · exact hascii (by decide) hopen
  · exact .inl (Decimal.isDigit_of_mem_digits hid)
  · exact hascii (by decide) hdata
  · rcases mem_printFixed hv hvalue with hdigit | rfl | rfl
    · exact .inl hdigit
    · exact .inr (by decide)
    · exact .inr (by decide)
  · exact hascii (by decide) hclose

/-- A report fits into the buffer of the gateway. -/
theorem length_sendSensorData_lt (sensorId : UInt32) (hv : isFinite v = true) :
    (sendSensorData sensorId v).length < bufferSize := by
  have hid : (Decimal.digits sensorId.toNat).length ≤ 10 := by
    rw [Decimal.length_digits]
    exact Nat.log_lt_of_lt_pow' (by decide) (sensorId.toNat_lt.trans (by decide))
  have hint : (Decimal.digits (fixedUnits 1 v / 10 ^ 1)).length ≤ 309 := length_int_le 1 hv
  have hvalue : (printFixed 1 v).length ≤ 312 := by
    rw [length_printFixed 1 hv]
    split <;> omega
  have hopen : (ascii "\x7b\"id\":").length = 6 := rfl
  have hdata : (ascii ", \"data\":").length = 9 := rfl
  have hclose : (ascii "\x7d\r\n").length = 3 := rfl
  rw [sendSensorData, List.length_append, List.length_append, List.length_append,
    List.length_append, hopen, hdata, hclose, bufferSize]
  omega

/-- A byte that no report has. -/
theorem not_mem_sendSensorData {b : UInt8} (hv : isFinite v = true) (hdigit : isDigit b = false)
    (hascii : b ∉ ascii "\x7b\"id:, dat-.\x7d\r\n") : b ∉ sendSensorData sensorId v := by
  intro hb
  rcases mem_sendSensorData hv hb with h | h
  · rw [hdigit] at h
    cases h
  · exact hascii h

/-- The keys of a combined report have an `m`, and a report has none. -/
theorem not_combined (sensorId : UInt32) (hv : isFinite v = true) :
    ¬ tempKey <:+: sendSensorData sensorId v ∧ ¬ humKey <:+: sendSensorData sensorId v := by
  have hm : 109 ∉ sendSensorData sensorId v := not_mem_sendSensorData hv rfl (by decide)
  exact ⟨fun h => hm (h.subset (by decide)), fun h => hm (h.subset (by decide))⟩

/-- The header of a report. -/
theorem header_sendSensorData (sensorId : UInt32) (v : Bits) :
    header (sendSensorData sensorId v) = some ⟨.none, Decimal.digits sensorId.toNat, true,
      printFixed 1 v ++ ascii "\x7d\r\n"⟩ := by
  have hnone : Blank [] := by simp [Blank]
  have hblank : Blank [32] := by simp [Blank, isSpace]
  exact header_of_json hnone (writesId_digits sensorId) hblank rfl

/-- What `%lf` finds behind the header. -/
theorem scanNumeral_sendSensorData (lenient : Bool) (hv : isFinite v = true) :
    scanNumeral lenient (skipSpace (printFixed 1 v ++ ascii "\x7d\r\n")) =
      some ⟨.decimal (printed 1 v), true, ascii "\x7d\r\n"⟩ := by
  have hread := readNumber_printed 1 v (ascii "\x7d\r\n") (stopsAt_cons.mpr rfl) rfl
  rw [bytes_printed 1 hv] at hread
  have hlongest := longest_iff.mpr ⟨_, hread⟩
  have hhex : hexRest (readSign (printFixed 1 v ++ ascii "\x7d\r\n")).2 = none := by
    cases hhex : hexRest (readSign (printFixed 1 v ++ ascii "\x7d\r\n")).2 with
    | none => rfl
    | some digits =>
        have hzero := Literal.longest_unique hlongest (longest_of_hexRest hhex)
        have hfrac := congrArg (fun n => n.body.mantissa.frac) hzero
        cases hfrac
  rw [skipSpace_of_isPrefix hlongest.1, scanNumeral_of_readNumber hread hhex]
  rfl

/-- What the gateway reads in a report. -/
theorem parseSingle_sendSensorData (sensorId : UInt32) (hv : isFinite v = true) :
    parseSingle lib (sendSensorData sensorId v) = some ⟨sensorId, ⟨(printed 1 v).toBits⟩⟩ := by
  have hid : lib.toUnsigned .none (Decimal.value (Decimal.digits sensorId.toNat)) = sensorId := by
    rw [Decimal.value_digits, lib.toUnsigned_of_lt sensorId.toNat_lt, UInt32.ofNat_toNat]
  rw [parseSingle_eq, header_sendSensorData, Option.bind_some, Header.read_eq]
  dsimp only
  rw [scanNumeral_sendSensorData _ hv]
  dsimp only
  rw [if_pos (.inl rfl), Header.sensorId, hid]
  rfl

/-- Firmware and gateway agree: a report is one record, with the identifier and the
double nearest to the decimal that was written.  It is read with the format with
braces, and is not taken for a combined report. -/
theorem firmware_record_enqueued (lib : Library) (sensorId : UInt32) (v : Bits)
    (hv : isFinite v = true) : ∃ data : Double,
      (∀ (s : Store) (now : Int64), s.queue.occupancy ≠ 1023 →
        (s.receive lib (sendSensorData sensorId v) now).queue.contents =
          s.queue.contents ++ [⟨sensorId, data⟩]) ∧
      isFinite data.bits = true ∧
      (∀ b, |toRat data.bits - fixedValue 1 v| ≤ |toRat b - fixedValue 1 v|) ∧
      ¬ tempKey <:+: sendSensorData sensorId v ∧ ¬ humKey <:+: sendSensorData sensorId v ∧
      scanRecord lib (ascii "%u,%lf") (sendSensorData sensorId v) = none ∧
      scanRecord lib (ascii "%u %lf") (sendSensorData sensorId v) = none := by
  have hkeys := not_combined sensorId hv
  have hnul : 0 ∉ sendSensorData sensorId v := not_mem_sendSensorData hv rfl (by decide)
  have hnumber : readUnsigned (skipSpace (sendSensorData sensorId v)) = none :=
    readUnsigned_of_brace (after_append _ _)
  have hfinite := isFinite_toBits_printed 1 hv
  refine ⟨⟨(printed 1 v).toBits⟩, ?_, hfinite, ?_, hkeys.1, hkeys.2,
    scanRecord_of_readUnsigned (by rfl) hnumber, scanRecord_of_readUnsigned (by rfl) hnumber⟩
  · intro s now hroom
    rw [contents_receive lib (length_sendSensorData_lt sensorId hv) hnul (fun h => hkeys.1 h.1)
      hroom, parseSingle_sendSensorData sensorId hv]
    rfl
  · rw [toBits_printed] at hfinite ⊢
    exact ofFraction_nearest (by decide) hfinite

/-- A reading of 21.5 from sensor 16790. -/
theorem firmware_record_enqueued_reading : ∃ data : Double,
    (Store.init.receive glibc (sendSensorData 16790 0x4035800000000000) 0).queue.contents =
      [⟨16790, data⟩] := by
  obtain ⟨data, hdata, -⟩ := firmware_record_enqueued glibc 16790 0x4035800000000000 (by decide)
  exact ⟨data, hdata .init 0 (by decide)⟩

end IotEdge
