import IotEdge.Lib.Scanf
import IotEdge.Gateway.UdpServer

/-!
# What a datagram says

The part of `handle_udp_read` that looks at the text.  `strstr` looks for the two
keys of a combined report.  When both are there, each value is read behind its
key, and stays `0.0` when nothing can be read.  Otherwise three formats for one
record are tried in order, and the first that assigns both values is taken.

The three formats have one shape: a number with or without something behind it,
then a double.  `header` reads the text up to the double, and `parseSingle_eq` says
that the rest is left to `%lf`.
-/

namespace IotEdge

open Scanf CString
open Literal (Sign Number Longest)

/-- `"\"temp\":"`. -/
def tempKey : List UInt8 := ascii "\"temp\":"

/-- `"\"hum\":"`. -/
def humKey : List UInt8 := ascii "\"hum\":"

/-- A value of a combined report.  It is `0.0` before `sscanf`. -/
def scanValue (lib : Library) (text : List UInt8) : Double :=
  match lib.sscanf (directives (ascii "%lf")) text with
  | .double v :: _ => ⟨v⟩
  | _ => ⟨0⟩

/-- `sscanf(buffer, format, &sensor_id, &sensor_data) == 2`, and the two values. -/
def scanRecord (lib : Library) (format text : List UInt8) : Option IPCData :=
  match lib.sscanf (directives format) text with
  | [.unsigned sensorId, .double sensorData] => some ⟨sensorId, ⟨sensorData⟩⟩
  | _ => none

/-- The three formats for one record. -/
def parseSingle (lib : Library) (text : List UInt8) : Option IPCData :=
  scanRecord lib (ascii "%u,%lf") text <|>
  scanRecord lib (ascii "%u %lf") text <|>
  scanRecord lib (ascii "\x7b\"id\":%u, \"data\":%lf\x7d") text

/-- What the text of a datagram is taken for. -/
def parseDatagram (lib : Library) (text : List UInt8) : UdpMessage :=
  match strstr tempKey text, strstr humKey text with
  | some tempStr, some humStr =>
      .combined (scanValue lib (tempStr.drop 7)) (scanValue lib (humStr.drop 6))
  | _, _ =>
      match parseSingle lib text with
      | some data => .single data.sensorId data.sensorData
      | none => .unknown

/-- With both keys, a text is a combined report. -/
theorem sites_combined {lib : Library} {text tempStr humStr : List UInt8}
    (htemp : strstr tempKey text = some tempStr) (hhum : strstr humKey text = some humStr) :
    (parseDatagram lib text).sites = [.combinedTemp (scanValue lib (tempStr.drop 7)),
      .combinedHum (scanValue lib (humStr.drop 6))] := by
  rw [parseDatagram, htemp, hhum]
  rfl

/-- Without one of the keys, a text is a single record or nothing. -/
theorem sites_single {lib : Library} {text : List UInt8}
    (h : strstr tempKey text = none ∨ strstr humKey text = none) :
    (parseDatagram lib text).sites =
      ((parseSingle lib text).map fun r => .single r.sensorId r.sensorData).toList := by
  rw [parseDatagram]
  split
  next htemp hhum =>
    rcases h with h | h
    · rw [htemp] at h
      cases h
    · rw [hhum] at h
      cases h
  next => cases parseSingle lib text <;> rfl

/-! ## The part before the value -/

/-- The part of a record before the value. -/
structure Header where
  /-- The sign of the number. -/
  sign : Sign
  /-- The digits of the number. -/
  digits : List UInt8
  /-- There is a comma or white space behind the number. -/
  separated : Bool
  /-- The text where the value is read. -/
  tail : List UInt8

/-- The identifier that `%u` stores. -/
def Header.sensorId (h : Header) (lib : Library) : UInt32 :=
  lib.toUnsigned h.sign (Decimal.value h.digits)

/-- The header of the formats without braces.  The second one asks for no
separator, since its blank matches the empty text too. -/
def plainHeader (text : List UInt8) : Option Header :=
  (readUnsigned (skipSpace text)).map fun (number, rest) =>
    match after (ascii ",") rest with
    | some tail => ⟨number.1, number.2, true, tail⟩
    | none => ⟨number.1, number.2, rest.head?.any isSpace, rest⟩

/-- The header of the format with braces. -/
def jsonHeader (text : List UInt8) : Option Header := do
  let rest ← after (ascii "\x7b\"id\":") text
  let (number, rest) ← readUnsigned (skipSpace rest)
  let rest ← after (ascii ",") rest
  let tail ← after (ascii "\"data\":") (skipSpace rest)
  return ⟨number.1, number.2, true, tail⟩

/-- The header of a record. -/
def header (text : List UInt8) : Option Header := plainHeader text <|> jsonHeader text

theorem header_comma {text rest tail : List UInt8} {number : Sign × List UInt8}
    (h : readUnsigned (skipSpace text) = some (number, rest))
    (hcomma : after (ascii ",") rest = some tail) :
    header text = some ⟨number.1, number.2, true, tail⟩ := by
  simp [header, plainHeader, h, hcomma]

theorem header_space {text rest : List UInt8} {number : Sign × List UInt8}
    (h : readUnsigned (skipSpace text) = some (number, rest))
    (hcomma : after (ascii ",") rest = none) :
    header text = some ⟨number.1, number.2, rest.head?.any isSpace, rest⟩ := by
  simp [header, plainHeader, h, hcomma]

theorem header_json {text : List UInt8} (h : readUnsigned (skipSpace text) = none) :
    header text = jsonHeader text := by
  simp [header, plainHeader, h]

/-- What a header with braces was read from. -/
theorem jsonHeader_eq_some {text : List UInt8} {h : Header} (hread : jsonHeader text = some h) :
    ∃ rest₁ rest₂ rest₃, text = ascii "\x7b\"id\":" ++ rest₁ ∧
      readUnsigned (skipSpace rest₁) = some ((h.sign, h.digits), rest₂) ∧
      rest₂ = ascii "," ++ rest₃ ∧ skipSpace rest₃ = ascii "\"data\":" ++ h.tail := by
  obtain ⟨rest₁, hopen, hread⟩ := Option.bind_eq_some_iff.mp hread
  obtain ⟨⟨number, rest₂⟩, hnumber, hread⟩ := Option.bind_eq_some_iff.mp hread
  obtain ⟨rest₃, hcomma, hread⟩ := Option.bind_eq_some_iff.mp hread
  obtain ⟨tail, hdata, hread⟩ := Option.bind_eq_some_iff.mp hread
  cases hread
  exact ⟨rest₁, rest₂, rest₃, after_eq_some_iff.mp hopen, hnumber, after_eq_some_iff.mp hcomma,
    after_eq_some_iff.mp hdata⟩

/-- The value behind a header. -/
def Header.read (h : Header) (lib : Library) : Option IPCData :=
  (lib.scanDouble h.tail).map fun v => ⟨h.sensorId lib, ⟨v.1⟩⟩

/-! ## The three formats -/

variable {lib : Library}

/-- Bytes of a format that match themselves. -/
theorem sscanf_bytes (lib : Library) (word : List UInt8) (format : List Directive)
    (text : List UInt8) :
    lib.sscanf (word.map .byte ++ format) text =
      ((after word text).map (lib.sscanf format)).getD [] := by
  induction word generalizing text with
  | nil => rw [after_nil]; rfl
  | cons b word ih =>
      rw [after_cons]
      cases text with
      | nil => rfl
      | cons c rest =>
          rw [List.map_cons, List.cons_append, Library.sscanf]
          dsimp only
          split
          next => exact ih rest
          next => rfl

/-- Without a number there is no record. -/
theorem scanRecord_eq_none {format text : List UInt8}
    (h : lib.sscanf (directives format) text = []) : scanRecord lib format text = none := by
  rw [scanRecord, h]

/-- A format that begins with a number. -/
theorem scanRecord_of_readUnsigned {format text : List UInt8} {last : List Directive}
    (hformat : directives format = .unsigned :: last)
    (h : readUnsigned (skipSpace text) = none) : scanRecord lib format text = none := by
  refine scanRecord_eq_none ?_
  rw [hformat, Library.sscanf, Library.scanUnsigned, h]
  rfl

/-- With a number, the record is as good as its value. -/
theorem scanRecord_eq_map {format text tail : List UInt8} {sensorId : UInt32}
    {last : List Directive} (hlast : ∀ rest, lib.sscanf last rest = [])
    (h : lib.sscanf (directives format) text = .unsigned sensorId :: lib.sscanf (.double :: last) tail) :
    scanRecord lib format text =
      (lib.scanDouble tail).map fun v => ⟨sensorId, ⟨v.1⟩⟩ := by
  rw [scanRecord, h, Library.sscanf]
  cases lib.scanDouble tail with
  | none => rfl
  | some v => simp [hlast]

/-- A number is not the beginning of the format with braces. -/
theorem readUnsigned_of_brace {text rest : List UInt8}
    (h : after (ascii "\x7b\"id\":") text = some rest) : readUnsigned (skipSpace text) = none := by
  obtain rfl := after_eq_some_iff.mp h
  rfl

theorem scanDouble_of_comma (rest : List UInt8) : lib.scanDouble (44 :: rest) = none := by
  have hscan : scanNumeral lib.lenient (44 :: rest) = none := by
    cases rest <;> rfl
  rw [Library.scanDouble, skipSpace_cons rfl, hscan]

theorem scanDouble_skipSpace (text : List UInt8) :
    lib.scanDouble (skipSpace text) = lib.scanDouble text := by
  rw [Library.scanDouble, Library.scanDouble, skipSpace_skipSpace]

/-- `"%u,%lf"`. -/
theorem scanRecord_comma {text rest : List UInt8} {number : Sign × List UInt8}
    (h : readUnsigned (skipSpace text) = some (number, rest)) :
    scanRecord lib (ascii "%u,%lf") text = (after (ascii ",") rest).bind fun tail =>
      Header.read ⟨number.1, number.2, true, tail⟩ lib := by
  have hformat : directives (ascii "%u,%lf") =
      .unsigned :: ((ascii ",").map .byte ++ [.double]) := by decide
  have hscan : lib.sscanf (directives (ascii "%u,%lf")) text =
      .unsigned (lib.toUnsigned number.1 (Decimal.value number.2)) ::
        ((after (ascii ",") rest).map (lib.sscanf [.double])).getD [] := by
    rw [hformat, Library.sscanf, Library.scanUnsigned, h, Option.map_some]
    exact congrArg _ (sscanf_bytes _ _ _ _)
  cases hafter : after (ascii ",") rest with
  | none =>
      rw [hafter] at hscan
      rw [scanRecord, hscan]
      rfl
  | some tail =>
      rw [hafter] at hscan
      exact scanRecord_eq_map (fun _ => rfl) hscan

/-- `"%u %lf"`. -/
theorem scanRecord_space {text rest : List UInt8} {number : Sign × List UInt8}
    (h : readUnsigned (skipSpace text) = some (number, rest)) (separated : Bool) :
    scanRecord lib (ascii "%u %lf") text =
      Header.read ⟨number.1, number.2, separated, rest⟩ lib := by
  have hformat : directives (ascii "%u %lf") = [.unsigned, .space, .double] := by decide
  have hscan : lib.sscanf (directives (ascii "%u %lf")) text =
      .unsigned (lib.toUnsigned number.1 (Decimal.value number.2)) ::
        lib.sscanf [.double] (skipSpace rest) := by
    rw [hformat, Library.sscanf, Library.scanUnsigned, h, Option.map_some]
    rfl
  rw [scanRecord_eq_map (fun _ => rfl) hscan, scanDouble_skipSpace]
  rfl

/-- The last byte of the format with braces stores nothing. -/
theorem sscanf_brace (rest : List UInt8) : lib.sscanf [.byte 125] rest = [] := by
  cases rest with
  | nil => rfl
  | cons c rest =>
      rw [Library.sscanf]
      split <;> rfl

/-- What the format with braces has behind the id. -/
def jsonTail : List Directive :=
  (ascii ",").map .byte ++ .space :: ((ascii "\"data\":").map .byte ++ [.double, .byte 125])

theorem directives_json :
    directives (ascii "\x7b\"id\":%u, \"data\":%lf\x7d") =
      (ascii "\x7b\"id\":").map .byte ++ .unsigned :: jsonTail := by decide

/-- With an id, the record is as good as the rest of the format. -/
theorem scanRecord_of_jsonTail {format text rest : List UInt8} {sensorId : UInt32}
    (h : lib.sscanf (directives format) text = .unsigned sensorId :: lib.sscanf jsonTail rest) :
    scanRecord lib format text =
      (after (ascii ",") rest).bind fun rest =>
        (after (ascii "\"data\":") (skipSpace rest)).bind fun tail =>
          (lib.scanDouble tail).map fun v => ⟨sensorId, ⟨v.1⟩⟩ := by
  rw [jsonTail, sscanf_bytes] at h
  cases hcomma : after (ascii ",") rest with
  | none =>
      rw [hcomma] at h
      rw [scanRecord, h]
      rfl
  | some rest =>
      rw [hcomma, Option.map_some, Option.getD_some, Library.sscanf, sscanf_bytes] at h
      rw [Option.bind_some]
      cases hdata : after (ascii "\"data\":") (skipSpace rest) with
      | none =>
          rw [hdata] at h
          rw [scanRecord, h]
          rfl
      | some tail =>
          rw [hdata, Option.map_some, Option.getD_some] at h
          rw [Option.bind_some]
          exact scanRecord_eq_map sscanf_brace h

/-- The format with braces. -/
theorem scanRecord_json (text : List UInt8) :
    scanRecord lib (ascii "\x7b\"id\":%u, \"data\":%lf\x7d") text =
      (jsonHeader text).bind fun h => h.read lib := by
  have hscan := sscanf_bytes lib (ascii "\x7b\"id\":") (.unsigned :: jsonTail) text
  rw [← directives_json] at hscan
  rw [jsonHeader]
  cases hopen : after (ascii "\x7b\"id\":") text with
  | none =>
      rw [hopen] at hscan
      rw [scanRecord_eq_none hscan]
      rfl
  | some rest =>
      rw [hopen, Option.map_some, Option.getD_some, Library.sscanf, Library.scanUnsigned] at hscan
      cases hnumber : readUnsigned (skipSpace rest) with
      | none =>
          rw [hnumber] at hscan
          rw [scanRecord_eq_none hscan]
          simp only [Option.bind_eq_bind, Option.bind_some, hnumber, Option.bind_none]
      | some found =>
          rw [hnumber, Option.map_some] at hscan
          rw [scanRecord_of_jsonTail hscan]
          simp only [Option.bind_eq_bind, Option.bind_some, hnumber, Option.bind_assoc]
          rfl

/-- A record is a header and a value. -/
theorem parseSingle_eq (text : List UInt8) :
    parseSingle lib text = (header text).bind fun h => h.read lib := by
  rw [parseSingle, scanRecord_json]
  cases hnumber : readUnsigned (skipSpace text) with
  | none =>
      rw [scanRecord_of_readUnsigned (by rfl) hnumber, scanRecord_of_readUnsigned (by rfl) hnumber,
        header_json hnumber]
      rfl
  | some found =>
      obtain ⟨number, rest⟩ := found
      have hjson : jsonHeader text = none := by
        cases hopen : after (ascii "\x7b\"id\":") text with
        | none => rw [jsonHeader, hopen]; rfl
        | some rest' =>
            rw [readUnsigned_of_brace hopen] at hnumber
            cases hnumber
      rw [scanRecord_comma hnumber, hjson]
      cases hcomma : after (ascii ",") rest with
      | none =>
          rw [scanRecord_space hnumber (rest.head?.any isSpace), header_space hnumber hcomma]
          simp
      | some tail =>
          have hrest : lib.scanDouble rest = none := by
            rw [after_eq_some_iff.mp hcomma]
            exact scanDouble_of_comma tail
          rw [scanRecord_space hnumber true, header_comma hnumber hcomma]
          simp [Header.read, hrest]

end IotEdge
