import IotEdge.Gateway.Pipeline
import IotEdge.Gateway.UploadSize
import IotEdge.Firmware.SensorData

/-!
# What the cloud is told

The cloud sees the requests.  `readDatas` reads one as an HTTP server with a JSON parser
does: the body has the length that the head gives, and it is an object with the one
member `datas`.

`cloud_reads` takes this to the records.  As long as the numbers that come to the gateway
are ordinary, what the cloud reads from all the requests together is the offered records,
in their order, none twice and, without a loss, none missing.

`report_uploaded` is about the number in a record.  A reading goes from decimal to double
and back on its way, and the cloud is told the decimal that the firmware wrote.
-/

namespace IotEdge.Pipeline

open CString Printf
open CloudClient (batchSize)

/-! ## Ordinary records -/

/-- The value is finite, and is at most 47 characters up to the point. -/
structure Ordinary (r : IPCData) : Prop where
  finite : r.Finite
  width : r.valueWidth ≤ 47

theorem idDigits_le (r : IPCData) : r.idDigits ≤ 10 := by
  rw [IPCData.idDigits, Decimal.length_digits]
  exact Nat.log_lt_of_lt_pow' (by decide) (r.sensorId.toNat_lt.trans (by decide))

/-- A batch of ordinary records fits into the buffers. -/
theorem uploadFits_of_ordinary {batch : List IPCData} (hlen : batch.length ≤ batchSize)
    (h : ∀ r ∈ batch, Ordinary r) : UploadFits batch := by
  rw [upload_fits_iff batch fun r hr => (h r hr).finite]
  have hsum : (batch.map fun r => r.idDigits + r.valueWidth).sum ≤ batch.length * 57 := by
    refine (List.sum_le_card_nsmul _ 57 fun w hw => ?_).trans_eq (by simp)
    obtain ⟨r, hr, rfl⟩ := List.mem_map.mp hw
    exact Nat.add_le_add (idDigits_le r) (h r hr).width
  rw [batchSize] at hlen
  omega

/-! ## Reading the requests -/

/-- The elements of `datas` in a request. -/
def readDatas (request : List UInt8) : Option (List Json.Value) :=
  (splitRequest request).bind fun parts =>
    if contentLength parts.1 = some parts.2.length then
      match Json.parse parts.2 with
      | some (.obj [(name, .arr values)]) => if name = ascii "datas" then some values else none
      | _ => none
    else none

/-- The requests that were written, for a configuration. -/
def State.written (c : Config) (s : State) : List (List UInt8) :=
  s.requests.map fun b => httpRequest c (buildPayload b.records)

/-- One request. -/
theorem readDatas_httpRequest (file : List UInt8) {batch : List IPCData} (hne : batch ≠ [])
    (h : ∀ r ∈ batch, r.Finite) :
    readDatas (httpRequest (loadConfig file) (buildPayload batch)) =
      some (batch.map recordValue) := by
  obtain ⟨htext, hlen⟩ := buildPayload_eq batch
  have hfits := fits_loadConfig file
  have hcontent := contentLength_requestHead hfits (buildPayload batch)
  rw [hlen, ← htext] at hcontent
  rw [readDatas, splitRequest_httpRequest hfits, Option.bind_some, if_pos hcontent, htext,
    parse_bodyText hne h, bodyValue]
  exact if_pos rfl

/-- All of them. -/
theorem mapM_readDatas (file : List UInt8) {requests : List CloudClient.Batch}
    (h : ∀ b ∈ requests, b.records ≠ [] ∧ ∀ r ∈ b.records, r.Finite) :
    (requests.map fun b => httpRequest (loadConfig file) (buildPayload b.records)).mapM readDatas =
      some (requests.map fun b => b.records.map recordValue) := by
  induction requests with
  | nil => rfl
  | cons b requests ih =>
      obtain ⟨⟨hne, hfinite⟩, hrest⟩ := List.forall_mem_cons.mp h
      rw [List.map_cons, List.mapM_cons, readDatas_httpRequest file hne hfinite, ih hrest]
      rfl

variable {sk : EventLoop.Sockets} {parse : List UInt8 → UdpMessage}

/-- Take any run of the gateway in which the records that come to a push site are
ordinary.  Each request fits into its buffers and can be read, and what is read from them
all is the offered records, in order and none twice.  If no step lost anything, and nothing
is on its way, it is all of them.  The key of the file is taken to fit into `base64_id`: one of
more than 188 bytes overruns it before any request is written. -/
theorem cloud_reads {as : List Action} {s : State} (hrun : (machine sk parse).run as = some s)
    (file : List UInt8) (hordinary : ∀ r ∈ s.offered, Ordinary r) :
    (∀ b ∈ s.requests, UploadFits b.records) ∧
      ∃ values, (s.written (loadConfig file)).mapM readDatas = some values ∧
        values.flatten.Sublist (s.offered.map recordValue) ∧
        (((machine sk parse).EachStep as fun s a => ¬ Loses s a) → s.consumer.unsent = [] →
          s.loop.store.queue.occupancy = 0 → values.flatten = s.offered.map recordValue) := by
  obtain ⟨hsub, hiff⟩ := delivers_in_order hrun
  have hsized := CloudClient.sized_of_reachable (client_reachable ⟨as, hrun⟩)
  have huploaded : s.client.uploaded.Sublist s.offered :=
    (List.sublist_append_left _ _).trans hsub
  have hrecords : ∀ b ∈ s.requests, ∀ r ∈ b.records, Ordinary r := fun b hb r hr =>
    hordinary r (huploaded.subset (List.mem_flatMap.mpr ⟨b, hb, hr⟩))
  have hflatten : (s.requests.map fun b => b.records.map recordValue).flatten =
      s.client.uploaded.map recordValue := by
    rw [← List.flatMap_def]
    exact List.map_flatMap.symm
  refine ⟨fun b hb => uploadFits_of_ordinary (hsized b hb).2 (hrecords b hb), _,
    mapM_readDatas file fun b hb => ⟨List.ne_nil_of_length_pos (hsized b hb).1,
      fun r hr => (hrecords b hb r hr).finite⟩, ?_, fun hloses hunsent hempty => ?_⟩
  · rw [hflatten]
    exact huploaded.map recordValue
  · have hcontents : s.loop.store.queue.contents = [] :=
      List.length_eq_zero_iff.mp ((DataQueue.length_contents _).trans hempty)
    have hstream : s.stream = s.client.uploaded := by
      rw [State.stream, CloudClient.State.stream]
      simp only [State.client, hunsent, hcontents, List.append_nil]
    rw [hflatten, ← hstream, hiff.mpr hloses as (List.prefix_refl _) s hrun]

/-- A datagram, and the request that carries its record. -/
theorem cloud_reads_oneRequest : ∃ s,
    (machine .usual fun _ => .single 7 ⟨0x4035800000000000⟩).run oneRequest = some s ∧
      ∃ values, (s.written (loadConfig [])).mapM readDatas = some values ∧
        values.flatten.Sublist (s.offered.map recordValue) := by
  have hrun : ((machine .usual fun _ => .single 7 ⟨0x4035800000000000⟩).run oneRequest).map
      (fun s => s.offered) = some [⟨7, ⟨0x4035800000000000⟩⟩] := by decide
  obtain ⟨s, hs, hoffered⟩ := Option.map_eq_some_iff.mp hrun
  have hordinary : ∀ r ∈ s.offered, Ordinary r := by
    rw [hoffered, List.forall_mem_singleton]
    exact ⟨by decide, by decide +kernel⟩
  obtain ⟨-, values, hvalues, hsub, -⟩ := cloud_reads hs [] hordinary
  exact ⟨s, hs, values, hvalues, hsub⟩

/-! ## The number in a record -/

theorem million_lt_units : 10 ^ 6 < Binary64.units :=
  lt_of_lt_of_le (by decide : 10 ^ 6 < 2 ^ 20) (Nat.pow_le_pow_right (by decide) (by decide))

/-- The firmware writes a reading with one decimal, the gateway stores the nearest double
and uploads it with six.  The cloud is told the decimal that the firmware wrote, up to four
thousand million and more, and the identifier that it sent.  As in `cloud_reads`, the key of the
file is taken to fit into `base64_id`. -/
theorem report_uploaded (lib : Scanf.Library) (sensorId : UInt32) {v : Binary64.Bits}
    (hv : Binary64.isFinite v = true) (hsmall : fixedUnits 1 v * 10 ^ 5 < 2 ^ 52)
    (file : List UInt8) : ∃ r, parseSingle lib (sendSensorData sensorId v) = some r ∧
      readDatas (httpRequest (loadConfig file) (buildPayload [r])) =
        some [.obj [(ascii "id", .num sensorId.toNat), (ascii "data", .num (fixedValue 1 v))]] := by
  have hplaces : fixedUnits 1 v * 10 ^ 6 = fixedUnits 1 v * 10 ^ 5 * 10 ^ 1 := by
    rw [mul_assoc, ← pow_add]
  have hvalue : fixedValue 6 (printed 1 v).toBits = fixedValue 1 v := by
    rw [toBits_printed]
    exact fixedValue_ofFraction (by decide) hplaces hsmall million_lt_units
  have hfinite : IPCData.Finite ⟨sensorId, ⟨(printed 1 v).toBits⟩⟩ := isFinite_toBits_printed 1 hv
  refine ⟨_, parseSingle_sendSensorData sensorId hv, ?_⟩
  rw [readDatas_httpRequest file (List.cons_ne_nil _ _) (List.forall_mem_singleton.mpr hfinite),
    ← hvalue]
  rfl

/-- 21.5 from sensor 16790. -/
theorem report_uploaded_reading : ∃ r,
    parseSingle glibc (sendSensorData 16790 0x4035800000000000) = some r ∧
      readDatas (httpRequest (loadConfig []) (buildPayload [r])) =
        some [.obj [(ascii "id", .num 16790),
          (ascii "data", .num (fixedValue 1 0x4035800000000000))]] :=
  report_uploaded glibc 16790 (by decide) (by decide +kernel) []

end IotEdge.Pipeline
