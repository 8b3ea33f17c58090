import IotEdge.Gateway.UploadRequest

/-!
# The buffers of an upload

`json_payload` has 4096 bytes and `http_request` has 8192.  Nothing bounds what is
written to them but the size of a batch.  A record takes 23 bytes, the digits of the
identifier, and the value up to the point, which can be 310 bytes.

`upload_fits_iff` says which batches fit.  The head never matters: it is short for
any configuration that can be read.
-/

namespace IotEdge

open CString Printf

/-- `sizeof(json_payload)`. -/
def jsonPayloadSize : Nat := 4096

/-- `sizeof(http_request)`. -/
def httpRequestSize : Nat := 8192

/-- The digits of the identifier. -/
def IPCData.idDigits (r : IPCData) : Nat := (Decimal.digits r.sensorId.toNat).length

/-- The value up to the point: a sign, and the digits of the integral part of the
value, rounded to six decimals. -/
def IPCData.valueWidth (r : IPCData) : Nat :=
  (if Binary64.isNegative r.sensorData.bits then 1 else 0) +
    (Decimal.digits (fixedUnits 6 r.sensorData.bits / 10 ^ 6)).length

/-- The payload and the request for a batch fit into their buffers, with their
terminators, for any configuration. -/
def UploadFits (batch : List IPCData) : Prop :=
  (buildPayload batch).text.length + 1 ≤ jsonPayloadSize ∧
    ∀ file, (httpRequest (loadConfig file) (buildPayload batch)).length + 1 ≤ httpRequestSize

theorem length_recordText {r : IPCData} (h : r.Finite) :
    (recordText r).length = 23 + (r.idDigits + r.valueWidth) := by
  have hvalue := length_printFixed 6 h
  have hopen : (ascii "\x7b\"id\":").length = 6 := rfl
  have hdata : (ascii ", \"data\":").length = 9 := rfl
  have hclose : (ascii "\x7d").length = 1 := rfl
  simp only [recordText, List.length_append, hvalue, hopen, hdata, hclose, IPCData.idDigits,
    IPCData.valueWidth]
  omega

/-- The length of the records with their commas, by the length of each record. -/
theorem length_elementsText {batch : List IPCData} (hne : batch ≠ []) {width : IPCData → Nat}
    (h : ∀ r ∈ batch, (recordText r).length = 23 + width r) :
    (elementsText batch).length + 1 = (batch.map width).sum + 24 * batch.length := by
  induction batch using elementsText.induct with
  | case1 => exact absurd rfl hne
  | case2 r =>
      rw [elementsText, h r (List.mem_cons_self ..)]
      simp only [List.map_cons, List.map_nil, List.sum_cons, List.sum_nil, List.length_cons,
        List.length_nil]
      omega
  | case3 r r' batch ih =>
      have hrest := ih (List.cons_ne_nil _ _) fun x hx => h x (List.mem_cons_of_mem _ hx)
      rw [elementsText, List.length_append, List.length_cons, h r (List.mem_cons_self ..),
        List.map_cons, List.sum_cons, List.length_cons]
      omega

/-- The length of the payload. -/
theorem length_bodyText {batch : List IPCData} (hne : batch ≠ []) (h : ∀ r ∈ batch, r.Finite) :
    (bodyText batch).length + 1 =
      (batch.map fun r => r.idDigits + r.valueWidth).sum + 24 * batch.length + 12 := by
  have helements := length_elementsText hne fun r hr => length_recordText (h r hr)
  have hopen : (ascii "\x7b\"datas\":[").length = 10 := rfl
  have hclose : (ascii "]\x7d").length = 2 := rfl
  simp only [bodyText, List.length_append, hopen, hclose]
  omega

/-- The head of a request is short. -/
theorem length_requestHead_le {c : Config} (hc : c.Fits) {p : Payload} (hp : p.jsonLen < 10 ^ 4) :
    (requestHead c p).length ≤ 700 := by
  have hdevice := hc.length_deviceId
  have hkey := hc.length_apiKey
  have hlen : (Decimal.digits p.jsonLen).length ≤ 4 := by
    rw [Decimal.length_digits]
    exact Nat.log_lt_of_lt_pow' (by decide) hp
  have hbase64 : c.base64Id.length ≤ 344 := by
    rw [Config.base64Id, length_base64Encode, List.length_append]
    have hcolon : (ascii ":").length = 1 := rfl
    omega
  have hpost : (ascii "POST /api/1.0/device/").length = 21 := rfl
  have hdatas : (ascii "/datas HTTP/1.1").length = 15 := rfl
  have hhost : (ascii "Host: www.embsky.com").length = 20 := rfl
  have haccept : (ascii "Accept: */*").length = 11 := rfl
  have hauth : (ascii "Authorization: Basic ").length = 21 := rfl
  have hlength : (ascii "Content-Length: ").length = 16 := rfl
  have htype : (ascii "Content-Type: application/json;charset=utf-8").length = 44 := rfl
  have hconnection : (ascii "Connection: close").length = 17 := rfl
  simp only [requestHead, requestLine, headersBefore, lengthHeader, headersAfter, lines,
    List.length_append, List.length_cons, List.length_nil, hpost, hdatas, hhost, haccept, hauth,
    hlength, htype, hconnection]
  omega

/-- A batch of finite numbers fits just when its digits do. -/
theorem upload_fits_iff (batch : List IPCData) (hfinite : ∀ r ∈ batch, r.Finite) :
    UploadFits batch ↔
      (batch.map fun r => r.idDigits + r.valueWidth).sum + 24 * batch.length + 12 ≤ 4096 := by
  obtain ⟨htext, hlen⟩ := buildPayload_eq batch
  have hbody : (bodyText batch).length + 1 ≤ jsonPayloadSize ↔
      (batch.map fun r => r.idDigits + r.valueWidth).sum + 24 * batch.length + 12 ≤ 4096 := by
    rcases eq_or_ne batch [] with rfl | hne
    · exact iff_of_true (by decide) (by decide)
    · rw [length_bodyText hne hfinite, jsonPayloadSize]
  rw [UploadFits, htext, ← hbody, and_iff_left_of_imp]
  intro hfits file
  rw [jsonPayloadSize] at hfits
  have hjson : (buildPayload batch).jsonLen < 10 ^ 4 := by
    rw [hlen]
    omega
  have hhead := length_requestHead_le (fits_loadConfig file) hjson
  have hblank : (ascii "\r\n\r\n").length = 4 := rfl
  rw [httpRequest_eq, List.length_append, List.length_append, htext, hblank, httpRequestSize]
  omega

/-- Two usual readings. -/
theorem upload_fits_iff_readings :
    UploadFits [⟨16790, ⟨0x4035800000000000⟩⟩, ⟨16789, ⟨0x404E000000000000⟩⟩] :=
  (upload_fits_iff _ (by decide)).mpr (by decide +kernel)

/-- Fifty records of a large number do not fit. -/
theorem replicate_overflows {r : IPCData} (h : r.Finite)
    (hlarge : 10 ^ 99 ≤ fixedUnits 6 r.sensorData.bits / 10 ^ 6) :
    ¬ UploadFits (List.replicate 50 r) := by
  have hfinite : ∀ r' ∈ List.replicate 50 r, r'.Finite := fun r' hr' =>
    List.eq_of_mem_replicate hr' ▸ h
  have hne : List.replicate 50 r ≠ [] := List.cons_ne_nil _ _
  have hwidth : 99 < r.valueWidth :=
    (Decimal.lt_length_digits hlarge).trans_le (Nat.le_add_left _ _)
  clear hlarge
  rintro ⟨hpayload, -⟩
  rw [(buildPayload_eq _).1, length_bodyText hne hfinite, List.map_replicate,
    List.sum_replicate, List.length_replicate, jsonPayloadSize, smul_eq_mul] at hpayload
  omega

/-- Fifty of the least finite double do not fit. -/
theorem least_doubles_overflow : ¬ UploadFits (List.replicate 50 ⟨1, ⟨0xFFEFFFFFFFFFFFFF⟩⟩) :=
  replicate_overflows (by decide) (by decide +kernel)

end IotEdge
