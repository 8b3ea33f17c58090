import IotEdge.Gateway.UdpParser

/-!
# Datagrams with one record

A record is written in one of three forms: `<id>,<number>`, `<id> <number>`, or
`{"id":<id>, "data":<number>`, with white space in some places.  `Intended` is the
three forms as they are meant.  They are three ways to write a header that `%u`
reads as it stands, with a literal behind it (`intended_iff`).

`handle_udp_read` reads more than that.  A sign is accepted in front of the
identifier, a large one wraps, the separator may be missing, and a value may be
hexadecimal, an infinity or a NaN.  `ReadsAsWritten` lists what may be found behind
a header, and when the result is still the intended one.
`single_record_grammar_iff` says that this is exact.
-/

namespace IotEdge

open Scanf CString
open Literal (Sign Number Longest readSign readSign_append isSign isSign_of_isDigit)
open Decimal (isDigit StopsAt stopsAt_cons stopsAt_dropWhile takeWhile_append dropWhile_append)

/-! ## The intended forms -/

/-- White space, maybe none. -/
def Blank (ws : List UInt8) : Prop := ∀ b ∈ ws, isSpace b = true

/-- The digits write an identifier. -/
structure WritesId (ds : List UInt8) (sensorId : UInt32) : Prop where
  /-- There is a digit. -/
  ne_nil : ds ≠ []
  /-- They are digits. -/
  isDigit_of_mem : ∀ b ∈ ds, isDigit b = true
  /-- The number is the identifier, and so below `2 ^ 32`. -/
  value_eq : Decimal.value ds = sensorId.toNat

theorem WritesId.value_lt {ds : List UInt8} {sensorId : UInt32} (h : WritesId ds sensorId) :
    Decimal.value ds < 2 ^ 32 := by
  rw [h.value_eq]
  exact sensorId.toNat_lt

/-- A text that begins with a record in one of the three forms. -/
inductive Intended (text : List UInt8) (sensorId : UInt32) (n : Number) : Prop where
  /-- `<id>,<number>`. -/
  | comma {ws₁ ds ws₂ rest : List UInt8} :
      Blank ws₁ → WritesId ds sensorId → Blank ws₂ → Longest rest n →
      text = ws₁ ++ (ds ++ (ascii "," ++ (ws₂ ++ rest))) → Intended text sensorId n
  /-- `<id> <number>`. -/
  | space {ws₁ ds ws₂ rest : List UInt8} :
      Blank ws₁ → WritesId ds sensorId → Blank ws₂ → ws₂ ≠ [] → Longest rest n →
      text = ws₁ ++ (ds ++ (ws₂ ++ rest)) → Intended text sensorId n
  /-- With braces. -/
  | json {ws₁ ds ws₂ ws₃ rest : List UInt8} :
      Blank ws₁ → WritesId ds sensorId → Blank ws₂ → Blank ws₃ → Longest rest n →
      text = ascii "\x7b\"id\":" ++ (ws₁ ++ (ds ++ (ascii "," ++ (ws₂ ++
        (ascii "\"data\":" ++ (ws₃ ++ rest)))))) → Intended text sensorId n

/-- The literal has a finite value. -/
def FiniteValue (n : Number) : Prop := Binary64.isFinite n.toBits = true

instance (n : Number) : Decidable (FiniteValue n) := inferInstanceAs (Decidable (_ = _))

/-- A header that is read as it is written: no sign, no wrapping, and a separator. -/
def Header.Good (h : Header) : Prop :=
  h.sign = .none ∧ Decimal.value h.digits < 2 ^ 32 ∧ h.separated = true

instance (h : Header) : Decidable h.Good := inferInstanceAs (Decidable (_ ∧ _ ∧ _))

/-! ## Headers -/

theorem isDigit_of_isSpace (b : UInt8) (h : isSpace b = true) : isDigit b = false := by
  rw [Bool.eq_false_iff]
  intro hdigit
  rw [isSpace_of_isDigit b hdigit] at h
  cases h

theorem isSpace_of_isSign (b : UInt8) (h : isSign b = true) : isSpace b = false := by
  rcases of_decide_eq_true h with rfl | rfl <;> rfl

/-- Digits are read, behind white space. -/
theorem readUnsigned_append {ws ds rest : List UInt8} (hws : Blank ws) (hne : ds ≠ [])
    (hds : ∀ b ∈ ds, isDigit b = true) (hrest : StopsAt isDigit rest) :
    readUnsigned (skipSpace (ws ++ (ds ++ rest))) = some ((.none, ds), rest) := by
  obtain ⟨d, ds', rfl⟩ := List.exists_cons_of_ne_nil hne
  have hd := hds d (List.mem_cons_self ..)
  have hsign : readSign (d :: ds' ++ rest) = (.none, d :: ds' ++ rest) :=
    readSign_append .none (stopsAt_cons.mpr (isSign_of_isDigit d hd))
  rw [skipSpace_append hws, List.cons_append, skipSpace_cons (isSpace_of_isDigit d hd),
    ← List.cons_append, readUnsigned, hsign]
  dsimp only
  rw [takeWhile_append hds hrest, dropWhile_append hds hrest, if_neg hne]

/-- A number without a sign that is read is at the front of the text. -/
theorem append_of_readUnsigned {text rest ds : List UInt8}
    (h : readUnsigned text = some ((.none, ds), rest)) :
    text = ds ++ rest ∧ ds ≠ [] ∧ ∀ b ∈ ds, isDigit b = true := by
  have hbytes := Literal.bytes_readSign text
  simp only [readUnsigned] at h
  split at h
  next => cases h
  next hne =>
    simp only [Option.some.injEq, Prod.mk.injEq] at h
    obtain ⟨⟨hsign, rfl⟩, rfl⟩ := h
    rw [hsign] at hbytes
    refine ⟨?_, hne, fun _ hb => List.mem_takeWhile_imp hb⟩
    rw [List.takeWhile_append_dropWhile]
    exact hbytes.symm

/-- A literal does not begin with white space. -/
theorem skipSpace_of_isPrefix {text : List UInt8} {n : Number} (h : n.bytes <+: text) :
    skipSpace text = text := by
  obtain ⟨rest, rfl⟩ := h
  have hstop := n.stopsAt isSpace_of_isSign isSpace_of_isDigit rfl rest
  cases htext : n.bytes ++ rest with
  | nil => rfl
  | cons b text =>
      rw [htext] at hstop
      exact skipSpace_cons (stopsAt_cons.mp hstop)

/-- What is written behind a header: the literal, maybe behind white space. -/
theorem skipSpace_append_of_longest {ws rest : List UInt8} {n : Number} (hws : Blank ws)
    (h : Longest rest n) : skipSpace (ws ++ rest) = rest := by
  rw [skipSpace_append hws, skipSpace_of_isPrefix h.1]

/-! ## The forms and the headers -/

/-- The header of the format with braces. -/
theorem header_of_json {text ws₁ ds ws₂ tail : List UInt8} {sensorId : UInt32} (hws₁ : Blank ws₁)
    (hds : WritesId ds sensorId) (hws₂ : Blank ws₂)
    (htext : text = ascii "\x7b\"id\":" ++ (ws₁ ++ (ds ++ (ascii "," ++ (ws₂ ++
      (ascii "\"data\":" ++ tail)))))) : header text = some ⟨.none, ds, true, tail⟩ := by
  have hopen := after_eq_some_iff.mpr htext
  have hread : readUnsigned (skipSpace (ws₁ ++ (ds ++ (ascii "," ++ (ws₂ ++
      (ascii "\"data\":" ++ tail)))))) =
      some ((.none, ds), ascii "," ++ (ws₂ ++ (ascii "\"data\":" ++ tail))) :=
    readUnsigned_append hws₁ hds.ne_nil hds.isDigit_of_mem (stopsAt_cons.mpr rfl)
  have hdata : after (ascii "\"data\":") (skipSpace (ws₂ ++ (ascii "\"data\":" ++ tail))) =
      some tail := by
    rw [skipSpace_append hws₂]
    exact after_append _ _
  rw [header_json (readUnsigned_of_brace hopen), jsonHeader, hopen]
  simp [hread, hdata]

/-- A text in one of the forms has a header that is read as it is written. -/
theorem header_of_intended {text : List UInt8} {sensorId : UInt32} {n : Number}
    (h : Intended text sensorId n) : ∃ hd, header text = some hd ∧ hd.Good ∧
      Decimal.value hd.digits = sensorId.toNat ∧ Longest (skipSpace hd.tail) n := by
  cases h with
  | @comma ws₁ ds ws₂ rest hws₁ hds hws₂ hn htext =>
      have hread : readUnsigned (skipSpace text) =
          some ((.none, ds), ascii "," ++ (ws₂ ++ rest)) := by
        rw [htext]
        exact readUnsigned_append hws₁ hds.ne_nil hds.isDigit_of_mem (stopsAt_cons.mpr rfl)
      refine ⟨_, header_comma hread (after_append _ _), ⟨rfl, hds.value_lt, rfl⟩,
        hds.value_eq, ?_⟩
      rw [skipSpace_append_of_longest hws₂ hn]
      exact hn
  | @space ws₁ ds ws₂ rest hws₁ hds hws₂ hne hn htext =>
      obtain ⟨w, ws, rfl⟩ := List.exists_cons_of_ne_nil hne
      have hw := hws₂ w (List.mem_cons_self ..)
      have hread : readUnsigned (skipSpace text) = some ((.none, ds), w :: ws ++ rest) := by
        rw [htext]
        exact readUnsigned_append hws₁ hds.ne_nil hds.isDigit_of_mem
          (stopsAt_cons.mpr (isDigit_of_isSpace w hw))
      have hcomma : after (ascii ",") (w :: ws ++ rest) = none := by
        rw [List.cons_append, show ascii "," = [44] from rfl, after_cons]
        refine if_neg ?_
        rintro rfl
        cases hw
      refine ⟨_, header_space hread hcomma, ⟨rfl, hds.value_lt, hw⟩, hds.value_eq, ?_⟩
      rw [skipSpace_append_of_longest hws₂ hn]
      exact hn
  | @json ws₁ ds ws₂ ws₃ rest hws₁ hds hws₂ hws₃ hn htext =>
      refine ⟨_, header_of_json hws₁ hds hws₂ htext, ⟨rfl, hds.value_lt, rfl⟩, hds.value_eq, ?_⟩
      rw [skipSpace_append_of_longest hws₃ hn]
      exact hn

/-- A header that is read as it is written comes from one of the forms. -/
theorem intended_of_header {text : List UInt8} {hd : Header} {sensorId : UInt32} {n : Number}
    (hread : header text = some hd) (hgood : hd.Good)
    (hid : Decimal.value hd.digits = sensorId.toNat) (hn : Longest (skipSpace hd.tail) n) :
    Intended text sensorId n := by
  obtain ⟨hsign, -, hsep⟩ := hgood
  obtain ⟨ws₁, hws₁, htext⟩ := exists_skipSpace text
  obtain ⟨ws₂, hws₂, htail⟩ := exists_skipSpace hd.tail
  cases hnumber : readUnsigned (skipSpace text) with
  | some found =>
      obtain ⟨⟨sign, ds⟩, rest⟩ := found
      cases hcomma : after (ascii ",") rest with
      | some tail =>
          rw [header_comma hnumber hcomma] at hread
          cases hread
          cases hsign
          obtain ⟨happ, hne, hds⟩ := append_of_readUnsigned hnumber
          refine .comma hws₁ ⟨hne, hds, hid⟩ hws₂ hn ?_
          rw [← htail, ← after_eq_some_iff.mp hcomma, ← happ, ← htext]
      | none =>
          rw [header_space hnumber hcomma] at hread
          cases hread
          cases hsign
          obtain ⟨happ, hne, hds⟩ := append_of_readUnsigned hnumber
          refine .space hws₁ ⟨hne, hds, hid⟩ hws₂ ?_ hn ?_
          · rintro rfl
            obtain ⟨b, hb, hspace⟩ := (Option.any_eq_true _ _).mp hsep
            have hstop := stopsAt_dropWhile isSpace rest
            rw [show rest = rest.dropWhile isSpace from htail] at hb
            rw [hstop b (Option.mem_def.mpr hb)] at hspace
            cases hspace
          · rw [← htail, ← happ, ← htext]
  | none =>
      rw [header_json hnumber] at hread
      obtain ⟨rest₁, rest₂, rest₃, htext₁, hnumber₁, hcomma, hdata⟩ := jsonHeader_eq_some hread
      rw [hsign] at hnumber₁
      obtain ⟨happ, hne, hds⟩ := append_of_readUnsigned hnumber₁
      obtain ⟨ws₃, hws₃, hrest₁⟩ := exists_skipSpace rest₁
      obtain ⟨ws₄, hws₄, hrest₃⟩ := exists_skipSpace rest₃
      refine .json hws₃ ⟨hne, hds, hid⟩ hws₄ hws₂ hn ?_
      rw [← htail, ← hdata, ← hrest₃, ← hcomma, ← happ, ← hrest₁, htext₁]

/-- The intended forms, by their headers. -/
theorem intended_iff {text : List UInt8} {sensorId : UInt32} {n : Number} :
    Intended text sensorId n ↔ ∃ hd, header text = some hd ∧ hd.Good ∧
      Decimal.value hd.digits = sensorId.toNat ∧ Longest (skipSpace hd.tail) n := by
  constructor
  · exact header_of_intended
  · rintro ⟨hd, hread, hgood, hid, hn⟩
    exact intended_of_header hread hgood hid hn

/-! ## What is read behind a header -/

/-- The numeral behind a header is read as the literal it begins with. -/
def AgreesWith : Numeral → Prop
  | .decimal n => FiniteValue n
  | .hex sign body => (Numeral.hex sign body).toBits = (zero sign).toBits
  | .infinity _ | .nan _ => False

instance : (numeral : Numeral) → Decidable (AgreesWith numeral)
  | .decimal n => inferInstanceAs (Decidable (FiniteValue n))
  | .hex _ _ => inferInstanceAs (Decidable (_ = _))
  | .infinity _ | .nan _ => .isFalse id

/-- The numeral begins with a finite literal. -/
def BeginsFinite : Numeral → Prop
  | .decimal n => FiniteValue n
  | .hex _ _ => True
  | .infinity _ | .nan _ => False

instance : (numeral : Numeral) → Decidable (BeginsFinite numeral)
  | .decimal n => inferInstanceAs (Decidable (FiniteValue n))
  | .hex _ _ => .isTrue trivial
  | .infinity _ | .nan _ => .isFalse id

/-- What was found behind a header is read as it is written, or not at all where
the text does not have the intended form. -/
def Header.AgreesOn (h : Header) (lib : Library) : Option Scanned → Prop
  | none => h.Good → hexRest (readSign (skipSpace h.tail)).2 = none
  | some found =>
      if lib.Converts found then h.Good ∧ AgreesWith found.numeral
      else h.Good → ¬ BeginsFinite found.numeral

instance (h : Header) (lib : Library) : (found : Option Scanned) → Decidable (h.AgreesOn lib found)
  | none => inferInstanceAs (Decidable (_ → _))
  | some _ => inferInstanceAs (Decidable (ite _ _ _))

/-- The text behind a header is read as it is written. -/
def Header.ReadsAsWritten (h : Header) (lib : Library) : Prop :=
  h.AgreesOn lib (scanNumeral lib.lenient (skipSpace h.tail))

instance (h : Header) (lib : Library) : Decidable (h.ReadsAsWritten lib) :=
  inferInstanceAs (Decidable (h.AgreesOn lib _))

/-- A datagram is read as it is written. -/
def ReadsAsWritten (lib : Library) (bytes : List UInt8) : Prop :=
  ∀ h ∈ header bytes, h.ReadsAsWritten lib

instance (lib : Library) (bytes : List UInt8) : Decidable (ReadsAsWritten lib bytes) :=
  inferInstanceAs (Decidable (∀ _ ∈ _, _))

/-! ## Exactness -/

/-- The record that a text in one of the forms stands for. -/
def IntendedRecord (bytes : List UInt8) (data : IPCData) : Prop :=
  ∃ n, Intended bytes data.sensorId n ∧ FiniteValue n ∧ data.sensorData = ⟨n.toBits⟩

/-- The stores after `handle_udp_read`, with a token. -/
def Store.receive (s : Store) (lib : Library) (bytes : List UInt8) (now : Int64) : Store :=
  (handleUdpRead (parseDatagram lib) bytes true).foldl (fun s site => s.pushUdp site now) s

/-- With room in the ring, the record of a text in one of the forms is enqueued, and
nothing for any other text. -/
def AcceptsIntended (lib : Library) (bytes : List UInt8) : Prop :=
  ∀ (s : Store) (now : Int64), s.queue.occupancy ≠ 1023 →
    (∀ data, IntendedRecord bytes data →
      (s.receive lib bytes now).queue.contents = s.queue.contents ++ [data]) ∧
    ((∀ data, ¬ IntendedRecord bytes data) →
      (s.receive lib bytes now).queue.contents = s.queue.contents)

variable {lib : Library}

theorem finite_zero (sign : Sign) : FiniteValue (zero sign) := by
  cases sign <;> decide +kernel

theorem agreesWith_iff {numeral : Numeral} : AgreesWith numeral ↔
    ∃ n, numeral.literal = some n ∧ FiniteValue n ∧ numeral.toBits = n.toBits := by
  cases numeral with
  | decimal n => simp [AgreesWith, Numeral.literal, Numeral.toBits]
  | hex sign body => simp [AgreesWith, Numeral.literal, finite_zero]
  | infinity sign => simp [AgreesWith, Numeral.literal]
  | nan sign => simp [AgreesWith, Numeral.literal]

theorem beginsFinite_iff {numeral : Numeral} : BeginsFinite numeral ↔
    ∃ n, numeral.literal = some n ∧ FiniteValue n := by
  cases numeral with
  | decimal n => simp [BeginsFinite, Numeral.literal]
  | hex sign body => simp [BeginsFinite, Numeral.literal, finite_zero]
  | infinity sign => simp [BeginsFinite, Numeral.literal]
  | nan sign => simp [BeginsFinite, Numeral.literal]

/-- What is read behind a header. -/
theorem Header.read_eq (h : Header) : h.read lib =
    match scanNumeral lib.lenient (skipSpace h.tail) with
    | none => none
    | some found =>
        if lib.Converts found then some ⟨h.sensorId lib, ⟨found.numeral.toBits⟩⟩ else none := by
  rw [read, Library.scanDouble]
  cases scanNumeral lib.lenient (skipSpace h.tail) with
  | none => rfl
  | some found =>
      dsimp only
      split <;> rfl

/-- The record that a header and the literal behind it stand for. -/
def Header.Describes (h : Header) (lib : Library) (data : IPCData) : Prop :=
  h.Good ∧ data.sensorId = h.sensorId lib ∧
    ∃ n, Longest (skipSpace h.tail) n ∧ FiniteValue n ∧ data.sensorData = ⟨n.toBits⟩

/-- The record of a text, by its header. -/
theorem intendedRecord_iff (lib : Library) {bytes : List UInt8} {h : Header}
    (hread : header bytes = some h)
    {data : IPCData} : IntendedRecord bytes data ↔ h.Describes lib data := by
  have hid : h.Good → h.sensorId lib = UInt32.ofNat (Decimal.value h.digits) := by
    rintro ⟨hsign, hlt, -⟩
    rw [Header.sensorId, hsign, lib.toUnsigned_of_lt hlt]
  constructor
  · rintro ⟨n, hintended, hfinite, hdata⟩
    obtain ⟨h', hread', hgood, hval, hn⟩ := intended_iff.mp hintended
    rw [hread] at hread'
    cases hread'
    refine ⟨hgood, ?_, n, hn, hfinite, hdata⟩
    rw [hid hgood, hval, UInt32.ofNat_toNat]
  · rintro ⟨hgood, hdataId, n, hn, hfinite, hdata⟩
    refine ⟨n, intended_of_header hread hgood ?_ hn, hfinite, hdata⟩
    rw [hdataId, hid hgood, UInt32.toNat_ofNat_of_lt' hgood.2.1]

/-- Without a header there is no record. -/
theorem not_intendedRecord {bytes : List UInt8} (hread : header bytes = none) (data : IPCData) :
    ¬ IntendedRecord bytes data := by
  rintro ⟨n, hintended, -, -⟩
  obtain ⟨h, hread', -⟩ := intended_iff.mp hintended
  rw [hread] at hread'
  cases hread'

/-- A record that was read is the one described just when its value is the literal's. -/
theorem Header.some_iff_describes (h : Header) (bits : Binary64.Bits) :
    (∀ data, some (⟨h.sensorId lib, ⟨bits⟩⟩ : IPCData) = some data ↔ h.Describes lib data) ↔
      h.Good ∧ ∃ n, Longest (skipSpace h.tail) n ∧ FiniteValue n ∧ bits = n.toBits := by
  constructor
  · intro hexact
    obtain ⟨hgood, -, n, hn, hfinite, hbits⟩ := (hexact _).mp rfl
    exact ⟨hgood, n, hn, hfinite, congrArg Double.bits hbits⟩
  · rintro ⟨hgood, n, hn, hfinite, rfl⟩ data
    constructor
    · intro hdata
      cases hdata
      exact ⟨hgood, rfl, n, hn, hfinite, rfl⟩
    · rintro ⟨-, hid, n', hn', -, hdata⟩
      rw [Literal.longest_unique hn hn', ← hid, ← hdata]

/-- That none was read is right just when none is described. -/
theorem Header.none_iff_describes (h : Header) :
    (∀ data, none = some data ↔ h.Describes lib data) ↔
      (h.Good → ¬ ∃ n, Longest (skipSpace h.tail) n ∧ FiniteValue n) := by
  constructor
  · rintro hexact hgood ⟨n, hn, hfinite⟩
    have hrecord := (hexact ⟨h.sensorId lib, ⟨n.toBits⟩⟩).mpr ⟨hgood, rfl, n, hn, hfinite, rfl⟩
    cases hrecord
  · intro hnone data
    refine iff_of_false (by simp) ?_
    rintro ⟨hgood, -, n, hn, hfinite, -⟩
    exact hnone hgood ⟨n, hn, hfinite⟩

/-- What is read behind a header is the record described just when it is read as it is
written. -/
theorem Header.read_iff_readsAsWritten (h : Header) :
    (∀ data, h.read lib = some data ↔ h.Describes lib data) ↔ h.ReadsAsWritten lib := by
  rw [Header.read_eq, Header.ReadsAsWritten]
  cases hscan : scanNumeral lib.lenient (skipSpace h.tail) with
  | none =>
      have hzero : (∃ n, Longest (skipSpace h.tail) n ∧ FiniteValue n) ↔
          hexRest (readSign (skipSpace h.tail)).2 ≠ none := by
        simp only [longest_iff_of_none hscan]
        exact ⟨fun ⟨_, ⟨hne, _⟩, _⟩ => hne, fun hne => ⟨_, ⟨hne, rfl⟩, finite_zero _⟩⟩
      rw [Header.none_iff_describes, hzero, not_not, Header.AgreesOn]
  | some found =>
      simp only [Header.AgreesOn]
      split
      next =>
        rw [Header.some_iff_describes, agreesWith_iff]
        simp only [longest_iff_literal hscan]
      next =>
        rw [Header.none_iff_describes, beginsFinite_iff]
        simp only [longest_iff_literal hscan]

/-- The single-record formats assign the intended record. -/
theorem parseSingle_iff_readsAsWritten {bytes : List UInt8} :
    (∀ data, parseSingle lib bytes = some data ↔ IntendedRecord bytes data) ↔
      ReadsAsWritten lib bytes := by
  rw [parseSingle_eq]
  cases hread : header bytes with
  | none =>
      refine iff_of_true (fun data => ?_) ?_
      · simp [not_intendedRecord hread data]
      · simp [ReadsAsWritten, hread]
  | some h =>
      have hreads : ReadsAsWritten lib bytes ↔ h.ReadsAsWritten lib := by
        simp [ReadsAsWritten, hread]
      rw [hreads, Option.bind_some]
      simp only [intendedRecord_iff lib hread]
      exact h.read_iff_readsAsWritten

/-- The text of a short datagram without zeros is the datagram. -/
theorem bufferText_eq {bytes : List UInt8} (hlen : bytes.length < bufferSize)
    (hnul : 0 ∉ bytes) : bufferText bytes = bytes := by
  rw [bufferText, List.take_of_length_le (Nat.le_sub_one_of_lt hlen), List.takeWhile_eq_self_iff]
  intro b hb
  rw [decide_eq_true_iff]
  rintro rfl
  exact hnul hb

/-- Without both keys, the record of the text is pushed. -/
theorem handleUdpRead_single {bytes : List UInt8} (hlen : bytes.length < bufferSize)
    (hnul : 0 ∉ bytes) (hkeys : ¬ (tempKey <:+: bytes ∧ humKey <:+: bytes)) :
    handleUdpRead (parseDatagram lib) bytes true =
      ((parseSingle lib bytes).map fun r => .single r.sensorId r.sensorData).toList := by
  have hmissing : strstr tempKey bytes = none ∨ strstr humKey bytes = none := by
    rcases not_and_or.mp hkeys with htemp | hhum
    · exact .inl (not_not.mp fun h => htemp (strstr_ne_none_iff.mp h))
    · exact .inr (not_not.mp fun h => hhum (strstr_ne_none_iff.mp h))
  rw [handleUdpRead, bufferText_eq hlen hnul, sites_single hmissing]
  split
  next hnil =>
    subst hnil
    rw [parseSingle_eq]
    rfl
  next => rfl

/-- Without both keys, the record of the text is enqueued. -/
theorem contents_receive (lib : Library) {bytes : List UInt8} (hlen : bytes.length < bufferSize)
    (hnul : 0 ∉ bytes) (hkeys : ¬ (tempKey <:+: bytes ∧ humKey <:+: bytes)) {s : Store}
    (hroom : s.queue.occupancy ≠ 1023) (now : Int64) :
    (s.receive lib bytes now).queue.contents =
      s.queue.contents ++ (parseSingle lib bytes).toList := by
  rw [Store.receive, handleUdpRead_single hlen hnul hkeys]
  cases parseSingle lib bytes with
  | none => exact (List.append_nil _).symm
  | some data => exact (Store.pushUdp_of_room hroom _ _).1

/-- A datagram without both keys is accepted exactly in the intended forms just when
it is read as it is written. -/
theorem single_record_grammar_iff (lib : Library) (bytes : List UInt8)
    (hlen : bytes.length < 1024) (hnul : 0 ∉ bytes)
    (hkeys : ¬ (tempKey <:+: bytes ∧ humKey <:+: bytes)) :
    AcceptsIntended lib bytes ↔ ReadsAsWritten lib bytes := by
  rw [← parseSingle_iff_readsAsWritten]
  constructor
  · intro haccepts data
    have hcontents := contents_receive lib hlen hnul hkeys (s := .init) (by decide) 0
    have hempty : Store.init.queue.contents = [] := DataQueue.contents_init
    obtain ⟨hrecord, hnone⟩ := haccepts .init 0 (by decide)
    rw [hcontents, hempty, List.nil_append] at hrecord hnone
    have hsome : ∀ data, IntendedRecord bytes data → parseSingle lib bytes = some data :=
      fun data hdata => Option.toList_eq_singleton_iff.mp (hrecord data hdata)
    refine ⟨fun hparse => ?_, hsome data⟩
    rcases em (∃ data', IntendedRecord bytes data') with ⟨data', hdata'⟩ | hno
    · rw [hsome data' hdata', Option.some.injEq] at hparse
      exact hparse ▸ hdata'
    · have := hnone (not_exists.mp hno)
      rw [hparse] at this
      cases this
  · intro hexact s now hroom
    rw [contents_receive lib hlen hnul hkeys hroom]
    constructor
    · intro data hdata
      rw [(hexact data).mpr hdata]
      rfl
    · intro hnone
      cases hparse : parseSingle lib bytes with
      | none => exact List.append_nil _
      | some data => exact absurd ((hexact data).mp hparse) (hnone data)

/-- glibc on a 64-bit machine. -/
def glibc : Library := ⟨true, 64, by decide⟩

/-- A record with a blank behind the comma is accepted. -/
theorem single_record_grammar_iff_accepted : AcceptsIntended glibc (ascii "7, 21.5") :=
  (single_record_grammar_iff glibc (ascii "7, 21.5") (by decide) (by decide) (by decide)).mpr
    (by decide +kernel)

/-- A number with a fraction is taken for a record: its digits for the identifier,
and the rest for the value. -/
theorem missing_separator_accepted : ¬ ∃ lib, AcceptsIntended lib (ascii "12.5") := by
  rintro ⟨lib, haccepts⟩
  have hheader : header (ascii "12.5") = some ⟨.none, ascii "12", false, ascii ".5"⟩ := by rfl
  have hnone : ∀ data, ¬ IntendedRecord (ascii "12.5") data := by
    intro data hdata
    have hgood := ((intendedRecord_iff lib hheader).mp hdata).1
    exact absurd hgood (by decide)
  have hcontents := (haccepts .init 0 (by decide)).2 hnone
  have hscan : scanNumeral lib.lenient (skipSpace (ascii ".5")) =
      some ⟨.decimal ⟨.none, ⟨⟨[], some (ascii "5"), by simp, by simp [ascii, isDigit],
        by simp [ascii]⟩, none⟩⟩, true, []⟩ := by rfl
  rw [contents_receive lib (by decide) (by decide) (by decide) (by decide), parseSingle_eq, hheader,
    Option.bind_some, Header.read_eq, hscan] at hcontents
  cases hcontents

end IotEdge
