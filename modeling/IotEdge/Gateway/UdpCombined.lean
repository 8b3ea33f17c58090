import IotEdge.Gateway.UdpGrammar

/-!
# Combined reports

A datagram with both keys reports a temperature and a humidity.  Each value is the
literal behind the first occurrence of its key, in the datagram as it was sent.
`Reported` says so, and that the literal was received whole.

`handle_udp_read` pushes a record for each key whatever is behind it.  A value that
cannot be read stays `0.0`, and a literal that the buffer cuts is read up to there.
Where the buffer cuts off a key, the text may be taken for a single record.

`ReadsKeys` lists what may be behind the keys when every record is still one that
was reported, and `combined_report_iff` says that this is exact.
-/

namespace IotEdge

open Scanf CString
open Literal (Sign Number Longest readSign readNumber longest_iff)

/-- The two keys of a combined report. -/
inductive Key where
  | temp
  | hum
deriving DecidableEq, Repr

/-- The text of a key. -/
def Key.word : Key → List UInt8
  | .temp => tempKey
  | .hum => humKey

/-- The sensor of a key. -/
def Key.sensorId : Key → UInt32
  | .temp => 16790
  | .hum => 16789

theorem Key.sensorId_injective : Function.Injective Key.sensorId := by
  intro key key' h
  cases key <;> cases key' <;> first | rfl | cases h

/-- The value that a datagram reports for a key: the literal that follows the first
occurrence of the key in what was sent, if it is finite and was received whole. -/
structure Reported (bytes : List UInt8) (key : Key) (data : Double) : Prop where
  /-- The literal, and where it is. -/
  literal : ∃ (ws rest : List UInt8) (n : Number), Blank ws ∧
    strstr key.word bytes = some (key.word ++ (ws ++ rest)) ∧ Longest rest n ∧ FiniteValue n ∧
    data = ⟨n.toBits⟩ ∧
    bytes.length - rest.length + n.bytes.length ≤ (bufferText bytes).length

/-- A call of `handle_udp_read` at these push sites, with the upload thread taking
records at any point. -/
inductive Store.Handles : Store → List PushSite → Store → Prop where
  /-- The call is over. -/
  | done {s : Store} : Handles s [] s
  /-- The next push site. -/
  | push {s s' : Store} {site : PushSite} {sites : List PushSite} {now : Int64} :
      Handles (s.pushUdp site now) sites s' → Handles s (site :: sites) s'
  /-- The upload thread takes a record. -/
  | consume {s s' : Store} {sites : List PushSite} :
      0 < s.queue.occupancy → Handles { s with queue := s.queue.pop } sites s' →
      Handles s sites s'

/-- Every record that is enqueued was reported.  Where nothing is reported for a key,
nothing is enqueued and the blackboard keeps its value. -/
def NothingInvented (lib : Library) (bytes : List UInt8) : Prop :=
  ∀ (token : Bool) (s s' : Store), s.Handles (handleUdpRead (parseDatagram lib) bytes token) s' →
    ∃ new, s'.enqueued = s.enqueued ++ new ∧
      (∀ r ∈ new, ∃ key : Key, r.sensorId = key.sensorId ∧ Reported bytes key r.sensorData) ∧
      ∀ key : Key, (∀ data, ¬ Reported bytes key data) →
        (∀ r ∈ new, r.sensorId ≠ key.sensorId) ∧
        s'.board.readSharedSensorData key.sensorId = s.board.readSharedSensorData key.sensorId

/-! ## Push sites -/

namespace Store.Handles

variable {s s' : Store} {sites : List PushSite}

/-- What a call does to the stores. -/
theorem spec (h : s.Handles sites s') :
    ∃ new, s'.enqueued = s.enqueued ++ new ∧ (∀ r ∈ new, ∃ site ∈ sites, site.record = r) ∧
      ∀ sensorId ≠ 0, (∀ site ∈ sites, site.record.sensorId ≠ sensorId) →
        s'.board.readSharedSensorData sensorId = s.board.readSharedSensorData sensorId := by
  induction h with
  | done => exact ⟨[], by simp, by simp, fun _ _ _ => rfl⟩
  | consume _ _ ih => exact ih
  | @push s s' site sites now _ ih =>
      obtain ⟨new, henq, hnew, hboard⟩ := ih
      rcases eq_or_ne s.queue.occupancy 1023 with hfull | hroom
      · rw [Store.pushUdp_of_full hfull] at henq hboard
        refine ⟨new, henq, fun r hr => ?_, fun sensorId hne hsites => ?_⟩
        · obtain ⟨site', hsite', hrecord⟩ := hnew r hr
          exact ⟨site', List.mem_cons_of_mem _ hsite', hrecord⟩
        · exact hboard sensorId hne fun site' hsite' => hsites site' (List.mem_cons_of_mem _ hsite')
      · obtain ⟨-, henq', hboard'⟩ := Store.pushUdp_of_room hroom site now
        rw [henq', List.append_assoc] at henq
        refine ⟨site.record :: new, henq, fun r hr => ?_, fun sensorId hne hsites => ?_⟩
        · rcases List.mem_cons.mp hr with rfl | hr
          · exact ⟨site, List.mem_cons_self .., rfl⟩
          · obtain ⟨site', hsite', hrecord⟩ := hnew r hr
            exact ⟨site', List.mem_cons_of_mem _ hsite', hrecord⟩
        · rw [hboard sensorId hne fun site' hsite' => hsites site' (List.mem_cons_of_mem _ hsite'),
            hboard']
          exact Blackboard.read_update_of_ne (hsites site (List.mem_cons_self ..)).symm hne _ _

/-- When the upload thread keeps up, every record is enqueued. -/
theorem exists_all (sites : List PushSite) {s : Store} (h : s.queue.occupancy = 0) :
    ∃ s', s.Handles sites s' ∧ s'.enqueued = s.enqueued ++ sites.map PushSite.record := by
  induction sites generalizing s with
  | nil => exact ⟨s, .done, by simp⟩
  | cons site sites ih =>
      obtain ⟨hcontents, henq, -⟩ := Store.pushUdp_of_room (s := s) (by omega) site 0
      have hone : (s.pushUdp site 0).queue.occupancy = 1 := by
        rw [← DataQueue.length_contents, hcontents, List.length_append, DataQueue.length_contents, h]
        rfl
      have hpop := (DataQueue.contents_eq_cons (q := (s.pushUdp site 0).queue) (by omega)).2
      obtain ⟨s', hs', henq'⟩ := ih (s := { s.pushUdp site 0 with
        queue := (s.pushUdp site 0).queue.pop }) (show _ = 0 by dsimp only; omega)
      refine ⟨s', .push (.consume (by omega) hs'), ?_⟩
      rw [henq', henq, List.append_assoc]
      rfl

end Store.Handles

/-- Nothing is invented just when every push site has a reported value. -/
theorem nothingInvented_iff_sites {lib : Library} {bytes : List UInt8} :
    NothingInvented lib bytes ↔ ∀ site ∈ handleUdpRead (parseDatagram lib) bytes true,
      ∃ key : Key, site.record.sensorId = key.sensorId ∧
        Reported bytes key site.record.sensorData := by
  constructor
  · intro h site hsite
    obtain ⟨s', hs', henq'⟩ := Store.Handles.exists_all
      (handleUdpRead (parseDatagram lib) bytes true) (s := .init) rfl
    obtain ⟨new, henq, hnew, -⟩ := h true .init s' hs'
    rw [henq'] at henq
    have heq : (handleUdpRead (parseDatagram lib) bytes true).map PushSite.record = new :=
      List.append_cancel_left henq
    exact hnew _ (heq ▸ List.mem_map_of_mem hsite)
  · intro h token s s' hs
    have hsites : ∀ site ∈ handleUdpRead (parseDatagram lib) bytes token,
        ∃ key : Key, site.record.sensorId = key.sensorId ∧
          Reported bytes key site.record.sensorData := by
      cases token with
      | true => exact h
      | false => simp [handleUdpRead]
    obtain ⟨new, henq, hnew, hboard⟩ := hs.spec
    have hother : ∀ key : Key, (∀ data, ¬ Reported bytes key data) →
        ∀ site ∈ handleUdpRead (parseDatagram lib) bytes token,
          site.record.sensorId ≠ key.sensorId := by
      intro key hno site hsite heq
      obtain ⟨key', hid, hreported⟩ := hsites site hsite
      exact hno _ (Key.sensorId_injective (hid.symm.trans heq) ▸ hreported)
    refine ⟨new, henq, fun r hr => ?_, fun key hno => ⟨fun r hr => ?_, ?_⟩⟩
    · obtain ⟨site, hsite, rfl⟩ := hnew r hr
      exact hsites site hsite
    · obtain ⟨site, hsite, rfl⟩ := hnew r hr
      exact hother key hno site hsite
    · exact hboard _ (by cases key <;> decide) (hother key hno)

/-! ## What is behind a key -/

/-- The literal in the text that was received is the literal that was sent. -/
def Whole (received sent : List UInt8) : Prop :=
  (readNumber (skipSpace received)).map (fun found => found.1.bytes) =
    (readNumber (skipSpace sent)).map fun found => found.1.bytes

instance (received sent : List UInt8) : Decidable (Whole received sent) :=
  inferInstanceAs (Decidable (_ = _))

/-- The numeral begins with a literal that stands for `+0`. -/
def BeginsZero : Numeral → Prop
  | .decimal n => n.toBits = 0
  | .hex sign _ => sign ≠ .minus
  | .infinity _ | .nan _ => False

instance : (numeral : Numeral) → Decidable (BeginsZero numeral)
  | .decimal _ => inferInstanceAs (Decidable (_ = _))
  | .hex _ _ => inferInstanceAs (Decidable (_ ≠ _))
  | .infinity _ | .nan _ => .isFalse id

/-- What is found behind a key is read as the literal that is there.  A value that is
not converted stays `0.0`. -/
def ValueAgrees (lib : Library) (text : List UInt8) : Option Scanned → Prop
  | none => hexRest (readSign (skipSpace text)).2 ≠ none ∧ (readSign (skipSpace text)).1 ≠ .minus
  | some found =>
      if lib.Converts found then AgreesWith found.numeral else BeginsZero found.numeral

instance (lib : Library) (text : List UInt8) :
    (found : Option Scanned) → Decidable (ValueAgrees lib text found)
  | none => inferInstanceAs (Decidable (_ ∧ _))
  | some _ => inferInstanceAs (Decidable (ite _ _ _))

/-- The literal behind a key is received whole and read as it is written. -/
def ReadsKey (lib : Library) (received sent : List UInt8) : Prop :=
  Whole received sent ∧ ValueAgrees lib received (scanNumeral lib.lenient (skipSpace received))

instance (lib : Library) (received sent : List UInt8) : Decidable (ReadsKey lib received sent) :=
  inferInstanceAs (Decidable (_ ∧ _))

variable {lib : Library}

/-- The value of a combined report. -/
theorem scanValue_eq (text : List UInt8) : scanValue lib text =
    match scanNumeral lib.lenient (skipSpace text) with
    | none => ⟨0⟩
    | some found => if lib.Converts found then ⟨found.numeral.toBits⟩ else ⟨0⟩ := by
  have hformat : directives (ascii "%lf") = [.double] := by decide
  rw [scanValue, hformat, Library.sscanf, Library.scanDouble]
  cases scanNumeral lib.lenient (skipSpace text) with
  | none => rfl
  | some found =>
      rcases em (lib.Converts found) with hconverts | hfails
      · simp only [if_pos hconverts]
      · simp only [if_neg hfails]

theorem zero_toBits (sign : Sign) : (zero sign).toBits = 0 ↔ sign ≠ .minus := by
  cases sign <;> decide +kernel

theorem beginsZero_iff {numeral : Numeral} : BeginsZero numeral ↔
    ∃ n, numeral.literal = some n ∧ FiniteValue n ∧ n.toBits = 0 := by
  cases numeral with
  | decimal n =>
      simp only [BeginsZero, Numeral.literal, Option.some.injEq, exists_eq_left', iff_and_self]
      intro hzero
      rw [FiniteValue, hzero]
      decide
  | hex sign body =>
      constructor
      · intro hsign
        exact ⟨zero sign, rfl, finite_zero sign, (zero_toBits sign).mpr hsign⟩
      · rintro ⟨n, hn, -, hzero⟩
        cases hn
        exact (zero_toBits sign).mp hzero
  | infinity sign => simp [BeginsZero, Numeral.literal]
  | nan sign => simp [BeginsZero, Numeral.literal]

/-- What is found behind a key agrees just when the value is that of the literal. -/
theorem valueAgrees_iff (text : List UInt8) :
    ValueAgrees lib text (scanNumeral lib.lenient (skipSpace text)) ↔
      ∃ n, Longest (skipSpace text) n ∧ FiniteValue n ∧ scanValue lib text = ⟨n.toBits⟩ := by
  rw [scanValue_eq]
  cases hscan : scanNumeral lib.lenient (skipSpace text) with
  | none =>
      have hlongest := fun n => longest_iff_of_none hscan (n := n)
      simp only [hlongest, ValueAgrees]
      constructor
      · rintro ⟨hhex, hsign⟩
        exact ⟨_, ⟨hhex, rfl⟩, finite_zero _, congrArg Double.mk ((zero_toBits _).mpr hsign).symm⟩
      · rintro ⟨n, ⟨hhex, rfl⟩, -, hbits⟩
        exact ⟨hhex, (zero_toBits _).mp (congrArg Double.bits hbits).symm⟩
  | some found =>
      have hlongest := fun n => longest_iff_literal hscan (n := n)
      simp only [hlongest, ValueAgrees]
      split
      next => simp only [agreesWith_iff, Double.mk.injEq]
      next =>
        simp only [beginsZero_iff, Double.mk.injEq]
        exact exists_congr fun _ => and_congr_right fun _ => and_congr_right fun _ => eq_comm


/-- The literal behind a key is received whole just when it is the longest one in
what was sent, too. -/
theorem whole_iff {received sent : List UInt8} {n : Number} (h : Longest (skipSpace received) n) :
    Whole received sent ↔ Longest (skipSpace sent) n := by
  obtain ⟨rest, hread⟩ := longest_iff.mp h
  rw [Whole, hread, Option.map_some]
  constructor
  · intro hwhole
    obtain ⟨⟨n', rest'⟩, hread', hbytes⟩ := Option.map_eq_some_iff.mp hwhole.symm
    have hlongest : Longest (skipSpace received) n' := by
      rw [Longest, hbytes]
      exact h
    rw [Literal.longest_unique h hlongest]
    exact longest_iff.mpr ⟨rest', hread'⟩
  · intro hsent
    obtain ⟨rest', hread'⟩ := longest_iff.mp hsent
    rw [hread', Option.map_some]

/-- A key is read as it is written just when its value is the literal that was sent
behind it. -/
theorem readsKey_iff {received sent : List UInt8} : ReadsKey lib received sent ↔
    ∃ n, Longest (skipSpace received) n ∧ Longest (skipSpace sent) n ∧ FiniteValue n ∧
      scanValue lib received = ⟨n.toBits⟩ := by
  rw [ReadsKey, valueAgrees_iff]
  constructor
  · rintro ⟨hwhole, n, hn, hfinite, hvalue⟩
    exact ⟨n, hn, (whole_iff hn).mp hwhole, hfinite, hvalue⟩
  · rintro ⟨n, hn, hsent, hfinite, hvalue⟩
    exact ⟨(whole_iff hn).mpr hsent, n, hn, hfinite, hvalue⟩

/-! ## What is reported -/

/-- A literal of a longer text that is inside a shorter one is its longest, too. -/
theorem longest_of_append {text more : List UInt8} {n : Number} (h : Longest (text ++ more) n)
    (hpre : n.bytes <+: text) : Longest text n :=
  ⟨hpre, fun n' hn' => h.2 n' (hn'.trans (List.prefix_append _ _))⟩

/-- What is left of a text behind its first part goes to the end, where the end is
no longer than what is left. -/
theorem exists_within {text more front behind : List UInt8} (h : text ++ more = front ++ behind)
    (hle : more.length ≤ behind.length) : ∃ last, text = front ++ last ∧ behind = last ++ more := by
  have hsuffix : more <:+ front ++ behind := ⟨text, h⟩
  obtain ⟨last, rfl⟩ :=
    List.suffix_of_suffix_length_le hsuffix (List.suffix_append front behind) hle
  rw [← List.append_assoc, List.append_cancel_right_eq] at h
  exact ⟨last, h, rfl⟩

/-- What is reported for a key that is in the text that was received. -/
theorem reported_iff {bytes found : List UInt8} {key : Key} {data : Double}
    (hkey : strstr key.word (bufferText bytes) = some found) :
    Reported bytes key data ↔ ∃ n, Longest (skipSpace (found.drop key.word.length)) n ∧
      Longest (skipSpace (found.drop key.word.length ++ unread bytes)) n ∧ FiniteValue n ∧
      data = ⟨n.toBits⟩ := by
  have hsent := strstr_append hkey (unread bytes)
  rw [bufferText_append_unread] at hsent
  have hlen := congrArg List.length (bufferText_append_unread bytes)
  rw [List.length_append] at hlen
  obtain ⟨tail, rfl⟩ := prefix_of_strstr hkey
  rw [List.drop_left]
  rw [List.append_assoc] at hsent
  constructor
  · rintro ⟨ws, rest, n, hws, hkey', hn, hfinite, hdata, hwhole⟩
    rw [hsent, Option.some.injEq, List.append_cancel_left_eq] at hkey'
    obtain ⟨behind, rfl⟩ := hn.1
    have hle : (unread bytes).length ≤ behind.length := by
      have hparts := congrArg List.length hkey'
      simp only [List.length_append] at hparts hwhole hlen
      omega
    rw [← List.append_assoc] at hkey'
    obtain ⟨last, htail, rfl⟩ := exists_within hkey' hle
    rw [List.append_assoc] at htail
    rw [← List.append_assoc] at hn
    refine ⟨n, ?_, ?_, hfinite, hdata⟩
    · rw [htail, skipSpace_append_of_longest hws (longest_of_append hn (List.prefix_append _ _))]
      exact longest_of_append hn (List.prefix_append _ _)
    · rw [htail, List.append_assoc, skipSpace_append_of_longest hws hn]
      exact hn
  · rintro ⟨n, hn, hn', hfinite, hdata⟩
    obtain ⟨ws, hws, htail⟩ := exists_skipSpace tail
    obtain ⟨last, hlast⟩ := hn.1
    rw [← hlast] at htail
    rw [htail, List.append_assoc, skipSpace_append hws,
      skipSpace_of_isPrefix ((List.prefix_append _ _).trans (List.prefix_append _ _))] at hn'
    refine ⟨ws, _, n, hws, ?_, hn', hfinite, hdata, ?_⟩
    · rw [hsent, htail, List.append_assoc]
    · have hfound := (suffix_of_strstr hkey).length_le
      have hlenTail := congrArg List.length htail
      simp only [List.length_append] at hfound hlenTail ⊢
      omega

/-- The text behind each key is read as it was sent.  Where a key is cut off, the
text is not taken for a single record, unless that is what is reported for a key. -/
def ReadsKeys (lib : Library) (bytes : List UInt8) : Prop :=
  match strstr tempKey (bufferText bytes), strstr humKey (bufferText bytes) with
  | some tempStr, some humStr =>
      ReadsKey lib (tempStr.drop 7) (tempStr.drop 7 ++ unread bytes) ∧
        ReadsKey lib (humStr.drop 6) (humStr.drop 6 ++ unread bytes)
  | _, _ => ∀ h ∈ header (bufferText bytes),
      ∀ found ∈ scanNumeral lib.lenient (skipSpace h.tail), lib.Converts found →
        ∃ key : Key, h.sensorId lib = key.sensorId ∧ Reported bytes key ⟨found.numeral.toBits⟩

/-- A record of the sensor of a key is reported for that key. -/
theorem exists_key_iff {bytes : List UInt8} (k : Key) {data : Double} :
    (∃ key : Key, k.sensorId = key.sensorId ∧ Reported bytes key data) ↔
      Reported bytes k data := by
  constructor
  · rintro ⟨key, hid, hreported⟩
    exact Key.sensorId_injective hid ▸ hreported
  · exact fun hreported => ⟨k, rfl, hreported⟩

/-- The value of a key is reported just when the key is read as it was sent. -/
theorem reported_scanValue_iff (lib : Library) {bytes found : List UInt8} (key : Key)
    (hkey : strstr key.word (bufferText bytes) = some found) :
    Reported bytes key (scanValue lib (found.drop key.word.length)) ↔
      ReadsKey lib (found.drop key.word.length)
        (found.drop key.word.length ++ unread bytes) := by
  rw [reported_iff hkey, readsKey_iff]

/-- A text that is taken for a single record. -/
theorem single_reported_iff {bytes text : List UInt8} :
    (∀ site ∈ ((parseSingle lib text).map fun r =>
        PushSite.single r.sensorId r.sensorData).toList,
      ∃ key : Key, site.record.sensorId = key.sensorId ∧
        Reported bytes key site.record.sensorData) ↔
      ∀ h ∈ header text, ∀ found ∈ scanNumeral lib.lenient (skipSpace h.tail),
        lib.Converts found → ∃ key : Key, h.sensorId lib = key.sensorId ∧
          Reported bytes key ⟨found.numeral.toBits⟩ := by
  rw [parseSingle_eq]
  cases header text with
  | none => simp
  | some h =>
      rw [Option.bind_some, Header.read_eq]
      cases hscan : scanNumeral lib.lenient (skipSpace h.tail) with
      | none => simp [hscan]
      | some found =>
          rcases em (lib.Converts found) with hconverts | hfails
          · simp [PushSite.record, hscan, hconverts]
          · simp [hscan, hfails]

/-- Every record of a combined report was reported just when both keys are read as
they were sent. -/
theorem combined_report_iff (lib : Library) (bytes : List UInt8) (htemp : tempKey <:+: bytes)
    (hhum : humKey <:+: bytes) : NothingInvented lib bytes ↔ ReadsKeys lib bytes := by
  have hne : bytes ≠ [] := by
    rintro rfl
    exact absurd htemp.length_le (by decide)
  rw [nothingInvented_iff_sites, handleUdpRead, if_neg hne, if_neg (by decide), ReadsKeys]
  cases htempStr : strstr tempKey (bufferText bytes) with
  | none =>
      rw [sites_single (.inl htempStr)]
      exact single_reported_iff
  | some tempStr =>
      cases hhumStr : strstr humKey (bufferText bytes) with
      | none =>
          rw [sites_single (.inr hhumStr)]
          exact single_reported_iff
      | some humStr =>
          have htempKey := reported_scanValue_iff lib .temp htempStr
          have hhumKey := reported_scanValue_iff lib .hum hhumStr
          dsimp only
          rw [sites_combined htempStr hhumStr, List.forall_mem_cons, List.forall_mem_singleton]
          exact and_congr ((exists_key_iff .temp).trans htempKey)
            ((exists_key_iff .hum).trans hhumKey)

/-- A report with both values. -/
theorem combined_report_iff_both :
    NothingInvented glibc (ascii "\x7b\"temp\":21.5,\"hum\": 60\x7d") := by
  refine (combined_report_iff glibc _ (by decide) (by decide)).mpr ?_
  have htemp : strstr tempKey (bufferText (ascii "\x7b\"temp\":21.5,\"hum\": 60\x7d")) =
      some (ascii "\"temp\":21.5,\"hum\": 60\x7d") := by decide
  have hhum : strstr humKey (bufferText (ascii "\x7b\"temp\":21.5,\"hum\": 60\x7d")) =
      some (ascii "\"hum\": 60\x7d") := by decide
  rw [ReadsKeys, htemp, hhum]
  dsimp only
  decide +kernel

/-- A temperature of `0.0` is enqueued where none was reported. -/
theorem null_temperature_invented :
    ¬ ∃ lib, NothingInvented lib (ascii "\x7b\"temp\":null,\"hum\":60\x7d") := by
  rintro ⟨lib, h⟩
  have hkey : strstr Key.temp.word (bufferText (ascii "\x7b\"temp\":null,\"hum\":60\x7d")) =
      some (ascii "\"temp\":null,\"hum\":60\x7d") := by decide
  obtain ⟨key, hid, hreported⟩ := nothingInvented_iff_sites.mp h
    (.combinedTemp (scanValue lib (ascii "null,\"hum\":60\x7d"))) (List.mem_cons_self ..)
  have htemp := (exists_key_iff .temp).mp ⟨key, hid, hreported⟩
  obtain ⟨n, hn, -⟩ := (reported_iff hkey).mp htemp
  exact Literal.not_longest_of_readNumber rfl n hn

end IotEdge
