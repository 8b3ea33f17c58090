import IotEdge.Firmware.IpdFrames

/-!
# Acknowledgements

The main program clears `ok_flag`, sends a command, and waits until the interrupt sets the
flag again: at a `>`, or at an `O` that a `K` follows.

The automaton for `OK` forgets an `O` when the next byte is one more `O`, and keeps it while
the flag is cleared.  So what counts is whether the number of `O`s in front of a `K` is odd
(`Acks`).  It also reads the bytes that came from the network (`payload_ack_iff`).
-/

namespace IotEdge.Esp8266

open CString

/-! ## What the automaton looks for -/

/-- An odd number of `O`s is at the end. -/
def OddRun (bytes : List UInt8) : Prop := Odd (bytes.rtakeWhile (· = 79)).length

instance (bytes : List UInt8) : Decidable (OddRun bytes) := inferInstanceAs (Decidable (Odd _))

/-- The flag is set: there is a `>`, or a `K` behind an odd number of `O`s. -/
def Acks (bytes : List UInt8) : Prop :=
  62 ∈ bytes ∨ ∃ before after, bytes = before ++ 75 :: after ∧ OddRun before

/-- The automaton is left waiting for a `K`: an odd number of `O`s is at the end, or in front
of the `>` that set the flag. -/
def Waits (bytes : List UInt8) : Prop :=
  ∃ before after, bytes = before ++ after ∧ OddRun before ∧ ¬ Acks before ∧
    (after = [] ∨ after.head? = some 62)

theorem not_oddRun_nil : ¬ OddRun [] := by decide

/-- One byte more. -/
theorem oddRun_concat {bytes : List UInt8} {c : UInt8} :
    OddRun (bytes ++ [c]) ↔ c = 79 ∧ ¬ OddRun bytes := by
  rw [OddRun, List.rtakeWhile_concat, OddRun]
  rcases eq_or_ne c 79 with rfl | hne
  · simp [Nat.odd_add_one]
  · simp [hne]

theorem not_acks_nil : ¬ Acks [] := by
  rintro (hmem | ⟨before, after, heq, -⟩)
  · cases hmem
  · cases before <;> cases heq

theorem acks_concat {bytes : List UInt8} {c : UInt8} :
    Acks (bytes ++ [c]) ↔ Acks bytes ∨ c = 62 ∨ (c = 75 ∧ OddRun bytes) := by
  constructor
  · rintro (hmem | ⟨before, after, heq, hodd⟩)
    · rcases List.mem_append.mp hmem with hmem | hmem
      · exact .inl (.inl hmem)
      · exact .inr (.inl (List.mem_singleton.mp hmem).symm)
    · rcases List.eq_nil_or_concat' after with rfl | ⟨after, d, rfl⟩
      · obtain ⟨rfl, hc⟩ := List.append_inj' heq rfl
        cases hc
        exact .inr (.inr ⟨rfl, hodd⟩)
      · rw [← List.cons_append, ← List.append_assoc] at heq
        exact .inl (.inr ⟨before, after, (List.append_inj' heq rfl).1, hodd⟩)
  · rintro ((hmem | ⟨before, after, rfl, hodd⟩) | rfl | ⟨rfl, hodd⟩)
    · exact .inl (List.mem_append_left _ hmem)
    · exact .inr ⟨before, after ++ [c], by simp, hodd⟩
    · exact .inl (by simp)
    · exact .inr ⟨bytes, [], rfl, hodd⟩

/-- Behind an acknowledgement nothing changes. -/
theorem waits_concat_of_acks {bytes : List UInt8} (h : Acks bytes) (c : UInt8) :
    Waits (bytes ++ [c]) ↔ Waits bytes := by
  constructor
  · rintro ⟨before, after, heq, hodd, hno, hafter⟩
    rcases List.eq_nil_or_concat' after with rfl | ⟨after, d, rfl⟩
    · rw [List.append_nil] at heq
      exact absurd (heq ▸ acks_concat.mpr (.inl h)) hno
    · rw [← List.append_assoc] at heq
      refine ⟨before, after, (List.append_inj' heq rfl).1, hodd, hno, ?_⟩
      cases after with
      | nil => exact .inl rfl
      | cons b after => exact .inr (hafter.resolve_left (by simp))
  · rintro ⟨before, after, rfl, hodd, hno, rfl | hhead⟩
    · rw [List.append_nil] at h
      exact absurd h hno
    · refine ⟨before, after ++ [c], List.append_assoc .., hodd, hno, .inr ?_⟩
      rw [List.head?_append, hhead]
      rfl

/-- Before an acknowledgement the end alone counts, or what is in front of a `>`. -/
theorem waits_concat {bytes : List UInt8} (h : ¬ Acks bytes) (c : UInt8) :
    Waits (bytes ++ [c]) ↔ (c = 79 ∧ ¬ OddRun bytes) ∨ (c = 62 ∧ OddRun bytes) := by
  constructor
  · rintro ⟨before, after, heq, hodd, hno, hafter⟩
    rcases List.eq_nil_or_concat' after with rfl | ⟨after, d, rfl⟩
    · rw [List.append_nil] at heq
      exact .inl (oddRun_concat.mp (heq ▸ hodd))
    · rw [← List.append_assoc] at heq
      obtain ⟨hbytes, hd⟩ := List.append_inj' heq rfl
      have hhead := hafter.resolve_left (by simp)
      cases after with
      | nil =>
          cases hd
          cases hhead
          rw [List.append_nil] at hbytes
          exact .inr ⟨rfl, hbytes ▸ hodd⟩
      | cons b after =>
          cases hhead
          exact absurd (.inl (by simp [hbytes])) h
  · rintro (⟨rfl, hodd⟩ | ⟨rfl, hodd⟩)
    · refine ⟨bytes ++ [79], [], (List.append_nil _).symm, oddRun_concat.mpr ⟨rfl, hodd⟩, ?_,
        .inl rfl⟩
      rw [acks_concat]
      rintro (hacks | hprompt | ⟨hk, -⟩)
      · exact h hacks
      · exact absurd hprompt (by decide)
      · exact absurd hk (by decide)
    · exact ⟨bytes, [62], rfl, hodd, h, .inr rfl⟩

theorem not_waits_nil : ¬ Waits [] := by
  rintro ⟨before, after, heq, hodd, -⟩
  rw [(List.append_eq_nil_iff.mp heq.symm).1] at hodd
  exact not_oddRun_nil hodd

/-- Without an acknowledgement, the end alone counts. -/
theorem waits_iff_of_not_acks {bytes : List UInt8} (h : ¬ Acks bytes) :
    Waits bytes ↔ OddRun bytes := by
  rcases List.eq_nil_or_concat' bytes with rfl | ⟨bytes, c, rfl⟩
  · exact iff_of_false not_waits_nil not_oddRun_nil
  · obtain ⟨hno, hc⟩ := not_or.mp (mt acks_concat.mpr h)
    rw [waits_concat hno, oddRun_concat]
    exact or_iff_left fun hprompt => hc (.inl hprompt.1)

/-! ## What the automaton does -/

/-- What the automaton has made of some bytes. -/
structure Reads (bytes : List UInt8) (m : Matcher) : Prop where
  okFlag : m.okFlag = true ↔ Acks bytes
  flag : m.flag = .k ↔ Waits bytes

/-- Once the flag is set, nothing changes. -/
theorem Matcher.take_of_okFlag {m : Matcher} (h : m.okFlag = true) (c : UInt8) : m.take c = m := by
  rw [take, if_pos (.inr h), ← h]

/-- One byte more. -/
theorem Reads.take {bytes : List UInt8} {m : Matcher} (h : Reads bytes m) (c : UInt8) :
    Reads (bytes ++ [c]) (m.take c) := by
  by_cases hacks : Acks bytes
  · rw [Matcher.take_of_okFlag (h.okFlag.mpr hacks)]
    exact ⟨h.okFlag.trans (iff_of_true hacks (acks_concat.mpr (.inl hacks))),
      h.flag.trans (waits_concat_of_acks hacks c).symm⟩
  · obtain ⟨flag, okFlag⟩ := m
    have hok : okFlag = false := Bool.eq_false_iff.mpr fun hok => hacks (h.okFlag.mp hok)
    have hodd : flag = .k ↔ OddRun bytes := h.flag.trans (waits_iff_of_not_acks hacks)
    subst hok
    constructor
    · rw [acks_concat, or_iff_right hacks]
      rcases eq_or_ne c 62 with rfl | hprompt
      · exact iff_of_true rfl (.inl rfl)
      · cases flag with
        | o => simp [Matcher.take, hprompt, ← hodd]
        | k => simp [Matcher.take, hprompt, ← hodd]
    · rw [waits_concat hacks, ← hodd]
      rcases eq_or_ne c 62 with rfl | hprompt
      · cases flag <;> simp [Matcher.take]
      · cases flag with
        | o => simp [Matcher.take, hprompt]
        | k => simp [Matcher.take, hprompt]

/-- From the state at reset. -/
theorem reads_foldl (bytes : List UInt8) : Reads bytes (bytes.foldl Matcher.take ⟨.o, false⟩) := by
  induction bytes using List.reverseRecOn with
  | nil => exact ⟨iff_of_false (by decide) not_acks_nil, iff_of_false (by decide) not_waits_nil⟩
  | append_singleton bytes c ih =>
      rw [List.foldl_append]
      exact ih.take c

/-- The automaton reads every byte. -/
theorem matcher_foldl (s : State) (bytes : List UInt8) :
    (bytes.foldl dataHandler s).matcher = bytes.foldl Matcher.take s.matcher := by
  induction bytes generalizing s with
  | nil => rfl
  | cons c bytes ih => exact ih (dataHandler s c)

/-! ## Commands -/

/-- What happens to the variables of `esp8266.c`. -/
inductive Event where
  /-- The receive interrupt. -/
  | byte (c : UInt8)
  /-- `ok_flag = 0`, before a command. -/
  | clear
deriving DecidableEq, Repr

/-- One event. -/
def handle (s : State) : Event → State
  | .byte c => dataHandler s c
  | .clear => { s with matcher := { s.matcher with okFlag := false } }

/-- The interrupt and the commands. -/
def commands (wifiHandler : Bool) : Machine State Event :=
  ⟨init wifiHandler, fun s event => some (handle s event)⟩

/-- No byte is one of a packet. -/
def OutsidePackets (s : State) : List UInt8 → Prop
  | [] => True
  | c :: bytes => s.receiver.dataFlag ≠ .data ∧ OutsidePackets (dataHandler s c) bytes

/-- The `O` that the automaton keeps. -/
def Matcher.kept (m : Matcher) : List UInt8 := if m.flag = .k then [79] else []

/-- Since the flag was cleared, it was set just when a `>` or `OK` has come. -/
def Detects (s : State) (bytes : List UInt8) : Prop :=
  (bytes.foldl dataHandler (handle s .clear)).matcher.okFlag = true ↔
    62 ∈ bytes ∨ [79, 75] <:+: bytes

/-- An `O` that is kept is like one that comes now. -/
theorem okFlag_clear_iff (s : State) (bytes : List UInt8) :
    (bytes.foldl dataHandler (handle s .clear)).matcher.okFlag = true ↔
      Acks (s.matcher.kept ++ bytes) := by
  rw [matcher_foldl, ← (reads_foldl (s.matcher.kept ++ bytes)).okFlag, List.foldl_append]
  obtain ⟨receiver, ⟨flag, okFlag⟩, wifiHandler, calls⟩ := s
  cases flag <;> rfl

theorem acks_kept_iff {m : Matcher} {bytes : List UInt8} :
    Acks (m.kept ++ bytes) ↔ 62 ∈ bytes ∨
      ∃ before after, bytes = before ++ 75 :: after ∧ OddRun (m.kept ++ before) := by
  obtain ⟨flag, okFlag⟩ := m
  cases flag with
  | o => rfl
  | k =>
      refine or_congr (by simp [Matcher.kept]) ⟨?_, ?_⟩
      · rintro ⟨before, after, heq, hodd⟩
        cases before with
        | nil => cases heq
        | cons b before =>
            obtain ⟨rfl, rfl⟩ := List.cons.inj heq
            exact ⟨before, after, rfl, hodd⟩
      · rintro ⟨before, after, rfl, hodd⟩
        exact ⟨79 :: before, after, rfl, hodd⟩

/-- A run of `O`s that a `K` follows has `OK` at its end, unless the `O` is a kept one. -/
theorem ok_of_oddRun {m : Matcher} {before after : List UInt8} (h : OddRun (m.kept ++ before)) :
    [79, 75] <:+: before ++ 75 :: after ∨ (m.flag = .k ∧ before = []) := by
  rcases List.eq_nil_or_concat' before with rfl | ⟨before, c, rfl⟩
  · refine .inr ⟨by_contra fun hflag => ?_, rfl⟩
    rw [Matcher.kept, if_neg hflag] at h
    exact not_oddRun_nil h
  · rw [← List.append_assoc, oddRun_concat] at h
    obtain ⟨rfl, -⟩ := h
    exact .inl ⟨before, after, by simp⟩

/-- The flag is set at the right bytes, just when there is a `>`, or when with an `OK` there
is a `K` behind an odd number of `O`s, counting the kept one, and without `OK` no `O` was kept
for a `K` at the beginning. -/
theorem ack_detection_iff (s : State) (bytes : List UInt8) :
    Detects s bytes ↔ 62 ∈ bytes ∨
      if [79, 75] <:+: bytes then
        ∃ before after, bytes = before ++ 75 :: after ∧ OddRun (s.matcher.kept ++ before)
      else ¬ (s.matcher.flag = .k ∧ bytes.head? = some 75) := by
  rw [Detects, okFlag_clear_iff, acks_kept_iff]
  by_cases hprompt : 62 ∈ bytes
  · simp [hprompt]
  · simp only [hprompt, false_or]
    split
    next hok => exact iff_true_right hok
    next hok =>
      rw [iff_false_right hok]
      refine not_congr ⟨?_, ?_⟩
      · rintro ⟨before, after, rfl, hodd⟩
        obtain ⟨hflag, rfl⟩ := (ok_of_oddRun hodd).resolve_left hok
        exact ⟨hflag, rfl⟩
      · rintro ⟨hflag, hhead⟩
        obtain ⟨after, rfl⟩ := List.head?_eq_some_iff.mp hhead
        refine ⟨[], after, rfl, ?_⟩
        rw [Matcher.kept, if_pos hflag]
        decide

/-- The flag stays clear when `OOK` has come. -/
theorem ack_missed : ¬ ∀ (wifiHandler : Bool) (s : State), (commands wifiHandler).Reachable s →
    ∀ bytes, OutsidePackets (handle s .clear) bytes → Detects s bytes := by
  intro h
  have houtside : OutsidePackets (handle (init true) .clear) (ascii "OOK") :=
    ⟨by decide, by decide, by decide, trivial⟩
  have hdetects := h true _ .init (ascii "OOK") houtside
  rw [Detects] at hdetects
  revert hdetects
  decide

/-! ## Packets -/

theorem foldl_of_okFlag {m : Matcher} (h : m.okFlag = true) (bytes : List UInt8) :
    bytes.foldl Matcher.take m = m := by
  induction bytes with
  | nil => rfl
  | cons c bytes ih => rw [List.foldl_cons, Matcher.take_of_okFlag h, ih]

/-- Without `O` and `>` nothing happens. -/
theorem foldl_of_other {bytes : List UInt8} (hprompt : 62 ∉ bytes) (ho : 79 ∉ bytes) :
    bytes.foldl Matcher.take ⟨.o, false⟩ = ⟨.o, false⟩ := by
  induction bytes with
  | nil => rfl
  | cons c bytes ih =>
      rw [List.mem_cons, not_or] at hprompt ho
      have htake : Matcher.take ⟨.o, false⟩ c = ⟨.o, false⟩ := by
        simp [Matcher.take, Ne.symm hprompt.1, Ne.symm ho.1]
      rw [List.foldl_cons, htake, ih hprompt.2 ho.2]

/-- Behind the header of a packet no `O` is kept. -/
theorem foldl_header {m : Matcher} (h : m.okFlag = false) (n : Nat) :
    (ascii "+IPD," ++ (Decimal.digits n ++ [58])).foldl Matcher.take m = ⟨.o, false⟩ := by
  have hplus : m.take 43 = ⟨.o, false⟩ := by
    obtain ⟨flag, okFlag⟩ := m
    subst h
    cases flag <;> rfl
  have hdigits : ∀ c : UInt8, Decimal.isDigit c = false → c ∉ Decimal.digits n := by
    intro c hc hmem
    rw [Decimal.isDigit_of_mem_digits hmem] at hc
    cases hc
  have hheader : ∀ c : UInt8, Decimal.isDigit c = false → c ∉ ascii "IPD,:" →
      c ∉ ascii "IPD," ++ (Decimal.digits n ++ [58]) := by
    intro c hc hmem
    simp only [List.mem_append, not_or]
    exact ⟨fun h => hmem (List.mem_append_left (ascii ":") h), hdigits c hc,
      fun h => hmem (List.mem_append_right (ascii "IPD,") h)⟩
  show (ascii "IPD," ++ (Decimal.digits n ++ [58])).foldl Matcher.take (m.take 43) = _
  rw [hplus]
  exact foldl_of_other (hheader 62 (by decide) (by decide)) (hheader 79 (by decide) (by decide))

/-- Two packets, of one length or not, leave the same behind just when the flag was set
before, or when both or none of them set it and both or none leave the automaton waiting. -/
theorem payload_ack_iff (s : State) (payload payload' : List UInt8) :
    ((ipd payload).foldl dataHandler s).matcher = ((ipd payload').foldl dataHandler s).matcher ↔
      s.matcher.okFlag = true ∨
        ((Acks payload ↔ Acks payload') ∧ (Waits payload ↔ Waits payload')) := by
  rw [matcher_foldl, matcher_foldl]
  cases hok : s.matcher.okFlag with
  | true => exact iff_of_true (by rw [foldl_of_okFlag hok, foldl_of_okFlag hok]) (.inl rfl)
  | false =>
      have hipd : ∀ p : List UInt8, ipd p =
          (ascii "+IPD," ++ (Decimal.digits p.length ++ [58])) ++ p := by
        intro p
        simp [ipd]
      have hfold : ∀ p : List UInt8, (ipd p).foldl Matcher.take s.matcher =
          p.foldl Matcher.take ⟨.o, false⟩ := by
        intro p
        rw [hipd, List.foldl_append, foldl_header hok]
      rw [hfold, hfold, or_iff_right (by decide)]
      have h := reads_foldl payload
      have h' := reads_foldl payload'
      generalize payload.foldl Matcher.take ⟨.o, false⟩ = m at h
      generalize payload'.foldl Matcher.take ⟨.o, false⟩ = m' at h'
      rw [← h.okFlag, ← h'.okFlag, ← h.flag, ← h'.flag]
      obtain ⟨flag, okFlag⟩ := m
      obtain ⟨flag', okFlag'⟩ := m'
      cases flag <;> cases flag' <;> cases okFlag <;> cases okFlag' <;> decide

/-- A packet with the bytes `OK` sets the flag. -/
theorem payload_acknowledges : ¬ ∀ (wifiHandler : Bool) (s : State),
    (commands wifiHandler).Reachable s → ∀ payload payload' : List UInt8,
      payload.length = payload'.length →
        ((ipd payload).foldl dataHandler s).matcher =
          ((ipd payload').foldl dataHandler s).matcher := by
  intro h
  have hsame := h true _ .init (ascii "OK") (ascii "no") rfl
  revert hsame
  decide

end IotEdge.Esp8266
