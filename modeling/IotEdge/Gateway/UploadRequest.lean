import IotEdge.Lib.Json
import IotEdge.Lib.Printf
import IotEdge.Gateway.Base64
import IotEdge.Gateway.Config
import IotEdge.Gateway.DataQueue

/-!
# The upload request

`cloud_client_thread` writes a batch as JSON, piece by piece behind what it has
written so far, and puts the result behind an HTTP head.  `Payload` is the buffer
and the offset.

`upload_request_encodes` reads the request back: the body decodes to the batch, and
the head gives its length.
-/

namespace IotEdge

open CString Printf
open Json (Value)

/-! ## The payload -/

/-- `json_payload` and `json_len`. -/
structure Payload where
  /-- The string in `json_payload`. -/
  text : List UInt8
  jsonLen : Nat

/-- `json_len += sprintf(json_payload + json_len, ...)`. -/
def Payload.sprintf (p : Payload) (piece : List UInt8) : Payload where
  text := p.text.take p.jsonLen ++ piece
  jsonLen := p.jsonLen + piece.length

/-- `"{\"id\":%u, \"data\":%f}"`. -/
def recordText (r : IPCData) : List UInt8 :=
  ascii "\x7b\"id\":" ++ (Decimal.digits r.sensorId.toNat ++ (ascii ", \"data\":" ++
    (printFixed 6 r.sensorData.bits ++ ascii "\x7d")))

/-- The body of the `for` loop. -/
def Payload.addRecord (p : Payload) (i : Nat) (r : IPCData) : Payload :=
  (if 0 < i then p.sprintf (ascii ",") else p).sprintf (recordText r)

/-- The `for` loop from `i` on, with these records left. -/
def Payload.addRecords : Payload → Nat → List IPCData → Payload
  | p, _, [] => p
  | p, i, r :: batch => (p.addRecord i r).addRecords (i + 1) batch

/-- The payload for a batch. -/
def buildPayload (batch : List IPCData) : Payload :=
  ((Payload.sprintf ⟨[], 0⟩ (ascii "\x7b\"datas\":[")).addRecords 0 batch).sprintf (ascii "]\x7d")

/-- The records with commas between them. -/
def elementsText : List IPCData → List UInt8
  | [] => []
  | [r] => recordText r
  | r :: r' :: rest => recordText r ++ 44 :: elementsText (r' :: rest)

/-- The JSON text of a batch. -/
def bodyText (batch : List IPCData) : List UInt8 :=
  ascii "\x7b\"datas\":[" ++ (elementsText batch ++ ascii "]\x7d")

/-- The offset is the end of the string. -/
def Payload.Full (p : Payload) : Prop := p.jsonLen = p.text.length

theorem Payload.sprintf_full {p : Payload} (h : p.Full) (piece : List UInt8) :
    (p.sprintf piece).text = p.text ++ piece ∧ (p.sprintf piece).Full := by
  have htext : (p.sprintf piece).text = p.text ++ piece := by
    rw [sprintf, h, List.take_length]
  refine ⟨htext, ?_⟩
  rw [Full, htext, List.length_append, ← h]
  rfl

/-- The records behind the first one, each with its comma. -/
theorem Payload.addRecords_full {p : Payload} (h : p.Full) (batch : List IPCData) {i : Nat}
    (hi : 0 < i) :
    (p.addRecords i batch).text = p.text ++ batch.flatMap (fun r => 44 :: recordText r) ∧
      (p.addRecords i batch).Full := by
  induction batch generalizing p i with
  | nil => exact ⟨(List.append_nil _).symm, h⟩
  | cons r batch ih =>
      obtain ⟨hcomma, hfull⟩ := sprintf_full h (ascii ",")
      obtain ⟨hrecord, hfull'⟩ := sprintf_full hfull (recordText r)
      have hadd : p.addRecord i r = (p.sprintf (ascii ",")).sprintf (recordText r) := by
        rw [addRecord, if_pos hi]
      obtain ⟨htext, hfull''⟩ := ih hfull' (Nat.succ_pos i)
      rw [addRecords, hadd]
      refine ⟨?_, hfull''⟩
      rw [htext, hrecord, hcomma, List.flatMap_cons]
      simp [ascii]

theorem elementsText_cons (r : IPCData) (batch : List IPCData) :
    elementsText (r :: batch) = recordText r ++ batch.flatMap (fun r => 44 :: recordText r) := by
  induction batch generalizing r with
  | nil => simp [elementsText]
  | cons r' batch ih => rw [elementsText, ih, List.flatMap_cons, List.cons_append]

/-- The payload of a batch is its JSON text, and `json_len` is its length. -/
theorem buildPayload_eq (batch : List IPCData) :
    (buildPayload batch).text = bodyText batch ∧
      (buildPayload batch).jsonLen = (bodyText batch).length := by
  have hempty : (⟨[], 0⟩ : Payload).Full := rfl
  obtain ⟨hopen, hfull⟩ := Payload.sprintf_full hempty (ascii "\x7b\"datas\":[")
  have hrecords : ((Payload.sprintf ⟨[], 0⟩ (ascii "\x7b\"datas\":[")).addRecords 0 batch).text =
        ascii "\x7b\"datas\":[" ++ elementsText batch ∧
      ((Payload.sprintf ⟨[], 0⟩ (ascii "\x7b\"datas\":[")).addRecords 0 batch).Full := by
    cases batch with
    | nil => exact ⟨rfl, hfull⟩
    | cons r batch =>
        obtain ⟨hrecord, hfull'⟩ := Payload.sprintf_full hfull (recordText r)
        obtain ⟨htext, hfull''⟩ := Payload.addRecords_full hfull' batch (Nat.succ_pos 0)
        refine ⟨?_, hfull''⟩
        rw [elementsText_cons]
        refine htext.trans ?_
        rw [hrecord, hopen, List.append_assoc]
        rfl
  obtain ⟨hclose, hfull'⟩ := Payload.sprintf_full hrecords.2 (ascii "]\x7d")
  have htext : (buildPayload batch).text = bodyText batch := by
    rw [bodyText, ← List.append_assoc, ← hrecords.1]
    exact hclose
  refine ⟨htext, ?_⟩
  rw [← htext]
  exact hfull'

/-! ## The body as JSON -/

/-- The JSON value of a record: the identifier, and the value with six decimals. -/
def recordValue (r : IPCData) : Value :=
  .obj [(ascii "id", .num r.sensorId.toNat),
    (ascii "data", .num (fixedValue 6 r.sensorData.bits))]

/-- The JSON value of a batch. -/
def bodyValue (batch : List IPCData) : Value :=
  .obj [(ascii "datas", .arr (batch.map recordValue))]

/-- The record holds a finite number. -/
def IPCData.Finite (r : IPCData) : Prop := Binary64.isFinite r.sensorData.bits = true

instance (r : IPCData) : Decidable r.Finite := inferInstanceAs (Decidable (_ = _))

theorem isNumber_natural (n : ℕ) : Json.IsNumber (Literal.natural n) :=
  ⟨fun h => (by cases h), Decimal.digits_ne_nil n, fun h => (by cases h),
    Decimal.length_digits_of_head⟩

theorem isNumber_printed (v : Binary64.Bits) : Json.IsNumber (printed 6 v) := by
  refine ⟨?_, Decimal.digits_ne_nil _, ?_, Decimal.length_digits_of_head⟩
  · simp only [printed]
    cases Binary64.isNegative v <;> exact fun h => by cases h
  · simp [printed, Decimal.padded]

/-- An identifier decodes to its number. -/
theorem parseValue_digits (n : ℕ) (rest : List UInt8) (fuel : ℕ) :
    Json.parseValue (fuel + 1) (Decimal.digits n ++ 44 :: rest) = some (.num n, 44 :: rest) := by
  have hends : (Literal.natural n).body.Ends (44 :: rest) :=
    ⟨⟨Decimal.stopsAt_cons.mpr rfl, fun _ => Decimal.stopsAt_cons.mpr rfl⟩, rfl⟩
  have hparse := Json.parseValue_num (isNumber_natural n) hends fuel
  rwa [Literal.bytes_natural, Literal.toRat_natural] at hparse

/-- A value decodes to the number that is written. -/
theorem parseValue_printFixed {v : Binary64.Bits} (h : Binary64.isFinite v = true)
    (rest : List UInt8) (fuel : ℕ) :
    Json.parseValue (fuel + 1) (printFixed 6 v ++ 125 :: rest) =
      some (.num (fixedValue 6 v), 125 :: rest) := by
  have hends : (printed 6 v).body.Ends (125 :: rest) :=
    ⟨⟨Decimal.stopsAt_cons.mpr rfl, fun h => (by cases h)⟩, rfl⟩
  have hparse := Json.parseValue_num (isNumber_printed v) hends fuel
  rwa [bytes_printed 6 h, toRat_printed] at hparse

/-- A record decodes to its value. -/
theorem parseValue_recordText {r : IPCData} (h : r.Finite) (rest : List UInt8) (fuel : ℕ) :
    Json.parseValue (fuel + 4) (recordText r ++ rest) = some (recordValue r, rest) := by
  have hdata : Json.parseMembers (fuel + 2) (32 :: 34 :: (ascii "data" ++ 34 :: 58 ::
      (printFixed 6 r.sensorData.bits ++ 125 :: rest))) =
        some ([(ascii "data", .num (fixedValue 6 r.sensorData.bits))], rest) := by
    rw [Json.parseMembers_blank _ rfl]
    exact Json.parseMembers_last (by simp [ascii, Json.isPlain]) (parseValue_printFixed h rest fuel)
  have hid : Json.parseMembers (fuel + 3) (34 :: (ascii "id" ++ 34 :: 58 ::
      (Decimal.digits r.sensorId.toNat ++ 44 :: 32 :: 34 :: (ascii "data" ++ 34 :: 58 ::
        (printFixed 6 r.sensorData.bits ++ 125 :: rest))))) = some ([(ascii "id", .num r.sensorId.toNat),
          (ascii "data", .num (fixedValue 6 r.sensorData.bits))], rest) :=
    Json.parseMembers_cons (by simp [ascii, Json.isPlain]) (parseValue_digits _ _ _) hdata
  have htext : recordText r ++ rest = 123 :: 34 :: (ascii "id" ++ 34 :: 58 ::
      (Decimal.digits r.sensorId.toNat ++ 44 :: 32 :: 34 :: (ascii "data" ++ 34 :: 58 ::
        (printFixed 6 r.sensorData.bits ++ 125 :: rest)))) := by
    simp only [recordText, List.append_assoc]
    rfl
  rw [htext]
  exact Json.parseValue_obj hid

/-- The records of a batch decode to their values. -/
theorem parseElements_elementsText {batch : List IPCData} (hne : batch ≠ [])
    (h : ∀ r ∈ batch, r.Finite) (rest : List UInt8) (fuel : ℕ) :
    Json.parseElements (batch.length + fuel + 4) (elementsText batch ++ 93 :: rest) =
      some (batch.map recordValue, rest) := by
  induction batch using elementsText.induct generalizing fuel with
  | case1 => exact absurd rfl hne
  | case2 r =>
      have hr := parseValue_recordText (h r (List.mem_cons_self ..)) (93 :: rest) fuel
      rw [List.length_singleton, Nat.add_comm 1 fuel]
      exact Json.parseElements_last hr
  | case3 r r' batch ih =>
      have hr := parseValue_recordText (h r (List.mem_cons_self ..))
        (44 :: (elementsText (r' :: batch) ++ 93 :: rest)) ((r' :: batch).length + fuel)
      have hbatch := ih (List.cons_ne_nil _ _) (fun x hx => h x (List.mem_cons_of_mem _ hx)) fuel
      rw [elementsText, List.append_assoc, List.cons_append, List.length_cons]
      have hfuel : (r' :: batch).length + 1 + fuel + 4 = (r' :: batch).length + fuel + 4 + 1 := by
        omega
      rw [hfuel]
      exact Json.parseElements_cons hr hbatch

theorem length_le_elementsText (batch : List IPCData) :
    batch.length ≤ (elementsText batch).length := by
  induction batch using elementsText.induct with
  | case1 => exact Nat.zero_le _
  | case2 r => simp [elementsText, recordText, ascii]
  | case3 r r' batch ih =>
      simp only [elementsText, List.length_cons, List.length_append] at ih ⊢
      omega

/-- The text of a batch decodes to the batch. -/
theorem parse_bodyText {batch : List IPCData} (hne : batch ≠ []) (h : ∀ r ∈ batch, r.Finite) :
    Json.parse (bodyText batch) = some (bodyValue batch) := by
  have hlen := length_le_elementsText batch
  obtain ⟨first, hfirst⟩ : ∃ first, elementsText batch = 123 :: first := by
    obtain ⟨r, rest, rfl⟩ := List.exists_cons_of_ne_nil hne
    exact ⟨_, elementsText_cons r rest⟩
  have htext : bodyText batch = 123 :: 34 :: (ascii "datas" ++ 34 :: 58 ::
      (91 :: (elementsText batch ++ 93 :: [125]))) := by
    simp only [bodyText]
    rfl
  obtain ⟨fuel, hfuel⟩ : ∃ fuel, 2 * (bodyText batch).length + 2 = batch.length + fuel + 4 + 3 := by
    have hbody : (bodyText batch).length = (elementsText batch).length + 12 := by
      simp only [bodyText, List.length_append]
      have hopen : (ascii "\x7b\"datas\":[").length = 10 := rfl
      have hclose : (ascii "]\x7d").length = 2 := rfl
      omega
    exact ⟨2 * (bodyText batch).length + 2 - batch.length - 7, by omega⟩
  have helements := parseElements_elementsText hne h [125] fuel
  rw [hfirst, List.cons_append] at helements
  have harr := Json.parseValue_arr rfl (by decide) helements
  rw [← List.cons_append, ← hfirst] at harr
  have hname : ∀ b ∈ ascii "datas", Json.isPlain b = true := by simp [ascii, Json.isPlain]
  have hmembers := Json.parseMembers_last hname harr
  rw [Json.parse, hfuel, htext, Json.parseValue_obj hmembers]
  rfl

/-! ## The request -/

/-- `base64_id`: the key and a colon. -/
def Config.base64Id (c : Config) : List UInt8 := base64Encode (c.apiKey ++ ascii ":")

/-- `http_request`. -/
def httpRequest (c : Config) (p : Payload) : List UInt8 :=
  ascii "POST /api/1.0/device/" ++ (c.deviceId ++ (ascii "/datas HTTP/1.1\r\n" ++
  (ascii "Host: www.embsky.com\r\n" ++
  (ascii "Accept: */*\r\n" ++
  (ascii "Authorization: Basic " ++ (c.base64Id ++ (ascii "\r\n" ++
  (ascii "Content-Length: " ++ (Decimal.digits p.jsonLen ++ (ascii "\r\n" ++
  (ascii "Content-Type: application/json;charset=utf-8\r\n" ++
  (ascii "Connection: close\r\n\r\n" ++ p.text))))))))))))

/-- The part of a request before the blank line, and the part behind it. -/
def splitRequest (request : List UInt8) : Option (List UInt8 × List UInt8) :=
  (strstr (ascii "\r\n\r\n") request).map fun found =>
    (request.take (request.length - found.length), found.drop 4)

/-- The number in the first header with this name.  The line that asks for the
resource is not a header. -/
def contentLength (head : List UInt8) : Option Nat :=
  (strstr (ascii "\r\nContent-Length: ") head).bind fun found =>
    let value := found.drop 18
    if after (ascii "\r\n") (value.dropWhile Decimal.isDigit) = none then none
    else some (Decimal.value (value.takeWhile Decimal.isDigit))

/-! ## Lines -/

/-- Nothing that begins with a line break begins inside a line. -/
theorem strstr_line {word line : List UInt8} (h : 10 ∉ line) (rest : List UInt8) :
    strstr (13 :: 10 :: word) (line ++ 13 :: rest) = strstr (13 :: 10 :: word) (13 :: rest) := by
  induction line with
  | nil => rfl
  | cons b line ih =>
      have hline : 10 ∉ line := fun hmem => h (List.mem_cons_of_mem _ hmem)
      rw [List.cons_append, strstr, if_neg, ih hline]
      intro hpre
      obtain ⟨-, hpre⟩ := List.cons_prefix_cons.mp hpre
      cases line with
      | nil => exact absurd (List.cons_prefix_cons.mp hpre).1 (by decide)
      | cons c line =>
          obtain ⟨rfl, -⟩ := List.cons_prefix_cons.mp hpre
          exact hline (List.mem_cons_self ..)

/-- Lines, each behind a line break. -/
def lines : List (List UInt8) → List UInt8 → List UInt8
  | [], rest => rest
  | line :: more, rest => 13 :: 10 :: (line ++ lines more rest)

theorem lines_lines (more more' : List (List UInt8)) (rest : List UInt8) :
    lines more (lines more' rest) = lines (more ++ more') rest := by
  induction more with
  | nil => rfl
  | cons line more ih => rw [lines, ih, List.cons_append, lines]

theorem lines_append (more : List (List UInt8)) (rest rest' : List UInt8) :
    lines more rest ++ rest' = lines more (rest ++ rest') := by
  induction more with
  | nil => rfl
  | cons line more ih =>
      rw [lines, List.cons_append, List.cons_append, List.append_assoc, ih, lines]

theorem exists_lines (more : List (List UInt8)) (rest : List UInt8) :
    ∃ t, lines more (13 :: rest) = 13 :: t := by
  cases more with
  | nil => exact ⟨rest, rfl⟩
  | cons line more => exact ⟨_, rfl⟩

/-- Nothing is found in lines that do not begin with the word. -/
theorem strstr_lines {word : List UInt8} {more : List (List UInt8)} (rest : List UInt8)
    (h : ∀ line ∈ more, 10 ∉ line ∧ ∀ t, ¬ word <+: line ++ 13 :: t) :
    strstr (13 :: 10 :: word) (lines more (13 :: rest)) =
      strstr (13 :: 10 :: word) (13 :: rest) := by
  induction more with
  | nil => rfl
  | cons line more ih =>
      obtain ⟨hline, hword⟩ := h line (List.mem_cons_self ..)
      obtain ⟨t, ht⟩ := exists_lines more rest
      have hmore := ih fun l hl => h l (List.mem_cons_of_mem _ hl)
      rw [ht] at hmore
      have hfirst : ¬ 13 :: 10 :: word <+: 13 :: 10 :: (line ++ 13 :: t) := fun hpre =>
        hword t (List.cons_prefix_cons.mp (List.cons_prefix_cons.mp hpre).2).2
      have hsecond : ¬ 13 :: 10 :: word <+: 10 :: (line ++ 13 :: t) := fun hpre =>
        absurd (List.cons_prefix_cons.mp hpre).1 (by decide)
      rw [lines, ht, strstr, if_neg hfirst, strstr, if_neg hsecond, strstr_line hline, hmore]

theorem strstr_here {word : List UInt8} (h : word ≠ []) (rest : List UInt8) :
    strstr word (word ++ rest) = some (word ++ rest) := by
  obtain ⟨b, word, rfl⟩ := List.exists_cons_of_ne_nil h
  rw [List.cons_append, strstr, if_pos]
  exact List.prefix_append (b :: word) rest

section Head

variable (c : Config) (p : Payload)

/-- The line that asks for the resource. -/
def requestLine : List UInt8 :=
  ascii "POST /api/1.0/device/" ++ (c.deviceId ++ ascii "/datas HTTP/1.1")

/-- The headers before the length. -/
def headersBefore : List (List UInt8) :=
  [ascii "Host: www.embsky.com", ascii "Accept: */*",
    ascii "Authorization: Basic " ++ c.base64Id]

/-- The header with the length. -/
def lengthHeader : List UInt8 := ascii "Content-Length: " ++ Decimal.digits p.jsonLen

/-- The headers after the length. -/
def headersAfter : List (List UInt8) :=
  [ascii "Content-Type: application/json;charset=utf-8", ascii "Connection: close"]

/-- The head of a request. -/
def requestHead : List UInt8 :=
  requestLine c ++ lines (headersBefore c) (lines (lengthHeader p :: headersAfter) [])

/-- A request is a head, a blank line and the payload. -/
theorem httpRequest_eq :
    httpRequest c p = requestHead c p ++ (ascii "\r\n\r\n" ++ p.text) := by
  have hpost : ascii "/datas HTTP/1.1\r\n" = ascii "/datas HTTP/1.1" ++ [13, 10] := by decide
  have hhost : ascii "Host: www.embsky.com\r\n" =
      ascii "Host: www.embsky.com" ++ [13, 10] := by decide
  have haccept : ascii "Accept: */*\r\n" = ascii "Accept: */*" ++ [13, 10] := by decide
  have hend : ascii "\r\n" = [13, 10] := by decide
  have htype : ascii "Content-Type: application/json;charset=utf-8\r\n" =
      ascii "Content-Type: application/json;charset=utf-8" ++ [13, 10] := by decide
  have hclose : ascii "Connection: close\r\n\r\n" =
      ascii "Connection: close" ++ ascii "\r\n\r\n" := by decide
  simp only [httpRequest, requestHead, requestLine, headersBefore, lengthHeader, headersAfter,
    lines, hpost, hhost, haccept, hend, htype, hclose, List.append_assoc, List.cons_append,
    List.nil_append]

end Head

/-- The lines of a head have no line break inside. -/
theorem newline_not_mem_headers {c : Config} {p : Payload} :
    ∀ line ∈ headersBefore c ++ lengthHeader p :: headersAfter, 10 ∉ line := by
  intro line hline
  simp only [headersBefore, headersAfter, List.cons_append, List.nil_append, List.mem_cons,
    List.not_mem_nil, or_false] at hline
  rcases hline with rfl | rfl | rfl | rfl | rfl | rfl
  · decide
  · decide
  · rw [List.mem_append, not_or]
    exact ⟨by decide, newline_not_mem_base64Encode _⟩
  · rw [lengthHeader, List.mem_append, not_or]
    exact ⟨by decide, fun h => absurd (Decimal.isDigit_of_mem_digits h) (by decide)⟩
  · decide
  · decide

theorem newline_not_mem_requestLine {c : Config} (hc : c.Fits) : 10 ∉ requestLine c := by
  rw [requestLine, List.mem_append, List.mem_append, not_or, not_or]
  exact ⟨by decide, hc.deviceId_line, by decide⟩

/-- What is found in a text of lines is found behind those that do not begin with
the word. -/
theorem strstr_append_lines {word line : List UInt8} {more : List (List UInt8)} (rest : List UInt8)
    (hline : 10 ∉ line) (h : ∀ line ∈ more, 10 ∉ line ∧ ∀ t, ¬ word <+: line ++ 13 :: t) :
    strstr (13 :: 10 :: word) (line ++ lines more (13 :: rest)) =
      strstr (13 :: 10 :: word) (13 :: rest) := by
  obtain ⟨t, ht⟩ := exists_lines more rest
  rw [ht, strstr_line hline, ← ht, strstr_lines rest h]

/-- The blank line of a request is behind its head. -/
theorem splitRequest_httpRequest {c : Config} (hc : c.Fits) (p : Payload) :
    splitRequest (httpRequest c p) = some (requestHead c p, p.text) := by
  have hlines : ∀ line ∈ headersBefore c ++ lengthHeader p :: headersAfter,
      10 ∉ line ∧ ∀ t, ¬ ascii "\r\n" <+: line ++ 13 :: t := by
    intro line hline
    refine ⟨newline_not_mem_headers line hline, fun t hpre => ?_⟩
    simp only [headersBefore, headersAfter, List.cons_append, List.nil_append, List.mem_cons,
      List.not_mem_nil, or_false] at hline
    rcases hline with rfl | rfl | rfl | rfl | rfl | rfl <;>
      exact absurd (List.cons_prefix_cons.mp hpre).1 (by decide)
  have hfound : strstr (ascii "\r\n\r\n") (httpRequest c p) =
      some (ascii "\r\n\r\n" ++ p.text) := by
    have htext : httpRequest c p = requestLine c ++
        lines (headersBefore c ++ lengthHeader p :: headersAfter)
          (13 :: 10 :: 13 :: 10 :: p.text) := by
      rw [httpRequest_eq, requestHead, lines_lines, List.append_assoc, lines_append]
      rfl
    rw [htext]
    exact (strstr_append_lines _ (newline_not_mem_requestLine hc) hlines).trans
      (strstr_here (by decide) p.text)
  have hcut : (httpRequest c p).length - (ascii "\r\n\r\n" ++ p.text).length =
      (requestHead c p).length := by
    simp only [httpRequest_eq, List.length_append, Nat.add_sub_cancel]
  rw [splitRequest, hfound, Option.map_some, hcut, httpRequest_eq, List.take_left]
  rfl

/-- The head of a request gives the length. -/
theorem contentLength_requestHead {c : Config} (hc : c.Fits) (p : Payload) :
    contentLength (requestHead c p) = some p.jsonLen := by
  have hlines : ∀ line ∈ headersBefore c,
      10 ∉ line ∧ ∀ t, ¬ ascii "Content-Length: " <+: line ++ 13 :: t := by
    intro line hline
    refine ⟨newline_not_mem_headers (p := p) line (List.mem_append_left _ hline), fun t hpre => ?_⟩
    simp only [headersBefore, List.mem_cons, List.not_mem_nil, or_false] at hline
    rcases hline with rfl | rfl | rfl <;>
      exact absurd (List.cons_prefix_cons.mp hpre).1 (by decide)
  have hfound : strstr (ascii "\r\nContent-Length: ") (requestHead c p) =
      some (ascii "\r\nContent-Length: " ++ (Decimal.digits p.jsonLen ++ lines headersAfter [])) :=
    (strstr_append_lines _ (newline_not_mem_requestLine hc) hlines).trans
      (strstr_here (by decide) _)
  have hdigits : ∀ b ∈ Decimal.digits p.jsonLen, Decimal.isDigit b = true :=
    fun _ h => Decimal.isDigit_of_mem_digits h
  have hstop : Decimal.StopsAt Decimal.isDigit (lines headersAfter []) :=
    Decimal.stopsAt_cons.mpr rfl
  have hvalue : (ascii "\r\nContent-Length: " ++
      (Decimal.digits p.jsonLen ++ lines headersAfter [])).drop 18 =
        Decimal.digits p.jsonLen ++ lines headersAfter [] := rfl
  rw [contentLength, hfound, Option.bind_some]
  dsimp only
  rw [hvalue, Decimal.takeWhile_append hdigits hstop, Decimal.dropWhile_append hdigits hstop,
    Decimal.value_digits, if_neg]
  exact Option.some_ne_none _

/-- A request is valid and says its length: for any configuration and any batch of
finite numbers, the text behind the blank line is the JSON object with the
identifiers and the six-decimal values of the batch in order, and the header gives
the number of its bytes.  This is about the text: a key of more than 188 bytes overruns
`base64_id` before any request is written. -/
theorem upload_request_encodes (file : List UInt8) (batch : List IPCData) (hne : batch ≠ [])
    (hfinite : ∀ r ∈ batch, r.Finite) :
    ∃ head body, splitRequest (httpRequest (loadConfig file) (buildPayload batch)) =
        some (head, body) ∧
      Json.parse body = some (.obj [(ascii "datas", .arr (batch.map fun r =>
        .obj [(ascii "id", .num r.sensorId.toNat),
          (ascii "data", .num (fixedValue 6 r.sensorData.bits))]))]) ∧
      contentLength head = some body.length := by
  have hfits := fits_loadConfig file
  obtain ⟨htext, hlen⟩ := buildPayload_eq batch
  refine ⟨_, _, splitRequest_httpRequest hfits _, ?_, ?_⟩
  · rw [htext]
    exact parse_bodyText hne hfinite
  · rw [contentLength_requestHead hfits, hlen, htext]

/-- A temperature and a humidity, and a file with a device. -/
theorem upload_request_encodes_reading :
    let batch : List IPCData := [⟨16790, ⟨0x4035800000000000⟩⟩, ⟨4501, ⟨0x404E000000000000⟩⟩]
    ∃ head body, splitRequest (httpRequest (loadConfig (ascii "DEVICE_ID=5910\n"))
        (buildPayload batch)) = some (head, body) ∧
      Json.parse body = some (.obj [(ascii "datas", .arr
        [.obj [(ascii "id", .num 16790), (ascii "data", .num (fixedValue 6 0x4035800000000000))],
          .obj [(ascii "id", .num 4501), (ascii "data", .num (fixedValue 6 0x404E000000000000))]])]) ∧
      contentLength head = some body.length :=
  upload_request_encodes (ascii "DEVICE_ID=5910\n")
    [⟨16790, ⟨0x4035800000000000⟩⟩, ⟨4501, ⟨0x404E000000000000⟩⟩] (by decide) (by decide)

end IotEdge
