import IotEdge.Gateway.EventLoop
import IotEdge.Gateway.UdpCombined
import IotEdge.Gateway.UploadRequest

/-!
# Finite records

An infinity or a NaN has no JSON text.  `%f` writes a word for it, and the whole
upload it is part of is lost.  So the ring should hold finite numbers only
(`State.Clean`), and then every batch is valid JSON.

Nothing keeps the others out.  `%lf` reads `inf` and `nan`, and a literal that is too
large, and a local client may send any bits.  `clean_iff` is the exact condition.
-/

namespace IotEdge.EventLoop

open CString Printf
open Scanf (Library scanNumeral)

/-- Every record in the ring is finite.  The values of every batch that can be taken
are JSON numbers, and the batch is valid JSON. -/
structure State.Clean (s : State) : Prop where
  /-- The records are finite. -/
  finite : ∀ r ∈ s.store.queue.contents, r.Finite
  /-- Each value is a number. -/
  number : ∀ r ∈ s.store.queue.contents,
    Json.parse (printFixed 6 r.sensorData.bits) =
      some (.num (fixedValue 6 r.sensorData.bits))
  /-- Each batch is valid. -/
  valid : ∀ batch, batch ≠ [] → batch <+: s.store.queue.contents →
    (Json.parse (buildPayload batch).text).isSome = true

/-- A record that goes into the ring is finite. -/
def FiniteRecord (s : State) : Action → Prop
  | .push _ => ∀ next site sites, s.pc = .pushing next (site :: sites) →
      s.store.queue.occupancy ≠ 1023 → site.record.Finite
  | .read n stack => ∀ i, s.pc = .scanning i → s.store.queue.occupancy ≠ 1023 →
      ((s.conns (s.fd i)).readData n stack).Finite
  | _ => True

/-- What `%lf` reads from the text, if anything, is finite: no infinity, no NaN, and
not too large. -/
def FiniteNumeral (lib : Library) (text : List UInt8) : Prop :=
  ∀ found ∈ scanNumeral lib.lenient (skipSpace text), lib.Converts found →
    Binary64.isFinite found.numeral.toBits = true

/-- The numerals of a datagram are finite: the one behind each key, or the one behind
the header. -/
def FiniteText (lib : Library) (text : List UInt8) : Prop :=
  match strstr tempKey text, strstr humKey text with
  | some tempStr, some humStr =>
      FiniteNumeral lib (tempStr.drop 7) ∧ FiniteNumeral lib (humStr.drop 6)
  | _, _ => ∀ h ∈ header text, FiniteNumeral lib h.tail

/-- The numerals of a datagram that gets a token, and the number that a client sends,
are finite. -/
def FiniteInput (lib : Library) (s : State) : Action → Prop
  | .recvfrom bytes token => token = true → FiniteText lib (bufferText bytes)
  | .read n stack => ∀ i, s.pc = .scanning i → ((s.conns (s.fd i)).readData n stack).Finite
  | _ => True

/-! ## Finite records are enough -/

/-- The text of a finite value is a JSON number. -/
theorem parse_printFixed {v : Binary64.Bits} (h : Binary64.isFinite v = true) :
    Json.parse (printFixed 6 v) = some (.num (fixedValue 6 v)) := by
  have hends : (printed 6 v).body.Ends [] :=
    ⟨⟨Decimal.stopsAt_nil _, fun h => (by cases h)⟩, rfl⟩
  have hparse := Json.parseValue_num (isNumber_printed v) hends (2 * (printFixed 6 v).length + 1)
  rw [List.append_nil, bytes_printed 6 h, toRat_printed] at hparse
  rw [Json.parse, hparse]
  rfl

/-- Finite records are all it takes. -/
theorem State.clean_iff_finite {s : State} :
    s.Clean ↔ ∀ r ∈ s.store.queue.contents, r.Finite := by
  constructor
  · exact Clean.finite
  · intro h
    refine ⟨h, fun r hr => parse_printFixed (h r hr), fun batch hne hbatch => ?_⟩
    rw [(buildPayload_eq batch).1, parse_bodyText hne fun r hr => h r (hbatch.subset hr)]
    rfl

/-! ## The numerals of a datagram -/

variable {lib : Library}

/-- A value that was not read is finite. -/
theorem finite_scanValue_iff (text : List UInt8) :
    Binary64.isFinite (scanValue lib text).bits = true ↔ FiniteNumeral lib text := by
  rw [scanValue_eq, FiniteNumeral]
  cases scanNumeral lib.lenient (skipSpace text) with
  | none => exact iff_of_true (show Binary64.isFinite 0 = true by decide) fun _ h => by cases h
  | some found =>
      rcases em (lib.Converts found) with hconverts | hfails
      · simp [hconverts]
      · simp [hfails]
        decide

/-- The record of a text is finite just when the numeral behind the header is. -/
theorem finite_parseSingle_iff (text : List UInt8) :
    (∀ r ∈ parseSingle lib text, r.Finite) ↔ ∀ h ∈ header text, FiniteNumeral lib h.tail := by
  rw [parseSingle_eq]
  cases header text with
  | none => simp
  | some h =>
      rw [Option.bind_some, Header.read_eq]
      cases hscan : scanNumeral lib.lenient (skipSpace h.tail) with
      | none => simp [FiniteNumeral, hscan]
      | some found =>
          rcases em (lib.Converts found) with hconverts | hfails
          · simp [FiniteNumeral, hscan, hconverts, IPCData.Finite]
          · simp [FiniteNumeral, hscan, hfails]

/-- The records of a datagram are finite just when its numerals are. -/
theorem finite_sites_iff (text : List UInt8) :
    (∀ site ∈ (parseDatagram lib text).sites, site.record.Finite) ↔ FiniteText lib text := by
  have hsingle : (∀ site ∈ ((parseSingle lib text).map fun r =>
        PushSite.single r.sensorId r.sensorData).toList, site.record.Finite) ↔
      ∀ h ∈ header text, FiniteNumeral lib h.tail := by
    rw [← finite_parseSingle_iff]
    cases parseSingle lib text with
    | none => simp
    | some data => simp [PushSite.record, IPCData.Finite]
  rw [FiniteText]
  cases htemp : strstr tempKey text with
  | none =>
      rw [sites_single (.inl htemp)]
      exact hsingle
  | some tempStr =>
      cases hhum : strstr humKey text with
      | none =>
          rw [sites_single (.inr hhum)]
          exact hsingle
      | some humStr =>
          rw [sites_combined htemp hhum, List.forall_mem_cons, List.forall_mem_singleton]
          exact and_congr (finite_scanValue_iff _) (finite_scanValue_iff _)

/-! ## Runs -/

variable {sk : Sockets} {parse : List UInt8 → UdpMessage}

/-- A record that is pushed has to be finite. -/
theorem finite_push_iff {q : DataQueue} {contents : List IPCData} {r : IPCData}
    (h : ∀ r ∈ contents, r.Finite) (hq : q.contents = contents ++ [r]) :
    (∀ r ∈ q.contents, r.Finite) ↔ r.Finite := by
  rw [hq, List.forall_mem_append, List.forall_mem_singleton]
  exact and_iff_right h

/-- A step keeps the ring clean just when it meets `FiniteRecord`. -/
theorem Step.finiteRecord_iff {s s' : State} {a : Action} (h : s.Clean)
    (hs : Step sk parse s a s') : s'.Clean ↔ FiniteRecord s a := by
  rw [State.clean_iff_finite] at h ⊢
  cases hs with
  | @pushed next site sites now hpc =>
      rcases eq_or_ne s.store.queue.occupancy 1023 with hfull | hroom
      · refine iff_of_true ?_ fun _ _ _ _ hroom => absurd hfull hroom
        dsimp only
        rwa [Store.pushUdp_of_full hfull]
      · refine (finite_push_iff h (Store.pushUdp_of_room hroom site now).1).trans ⟨?_, ?_⟩
        · intro hfinite next' site' sites' hpc' _
          rw [hpc, Pc.pushing.injEq, List.cons.injEq] at hpc'
          exact hpc'.2.1 ▸ hfinite
        · exact fun hfinite => hfinite next site sites hpc hroom
  | @read i n stack store hpc _ _ _ _ hpush =>
      obtain ⟨queue, hqueue, rfl⟩ := Option.map_eq_some_iff.mp hpush
      have hroom := Store.occupancy_ne_of_push hpush
      refine (finite_push_iff h (DataQueue.push_eq_some hqueue).1).trans ⟨?_, ?_⟩
      · intro hfinite j hj _
        rw [hpc, Pc.scanning.injEq] at hj
        exact hj ▸ hfinite
      · exact fun hfinite => hfinite i hpc hroom
  | dropped _ _ _ _ _ hpush =>
      have hfull := Store.push_eq_none_iff.mp hpush
      exact iff_of_true h fun _ _ hroom => absurd hfull hroom
  | consumed hocc =>
      refine iff_of_true (fun r hr => h r ?_) trivial
      rw [(DataQueue.contents_eq_cons hocc).1]
      exact List.mem_cons_of_mem _ hr
  | _ => exact iff_of_true h trivial

/-- The records that are still to be pushed are finite. -/
def State.PendingFinite (s : State) : Prop :=
  ∀ next sites, s.pc = .pushing next sites → ∀ site ∈ sites, site.record.Finite

/-- A step that meets `FiniteInput` meets `FiniteRecord`, and leaves only finite records
to be pushed. -/
theorem Step.pendingFinite {s s' : State} {a : Action} (h : s.PendingFinite)
    (hs : Step sk (parseDatagram lib) s a s') (ha : FiniteInput lib s a) :
    s'.PendingFinite ∧ FiniteRecord s a := by
  cases hs with
  | @received i bytes token hpc _ =>
      refine ⟨fun next sites hpc' => ?_, trivial⟩
      obtain ⟨-, rfl⟩ := Pc.pushing.inj hpc'
      rw [handleUdpRead]
      split
      next => simp
      next =>
        split
        next => simp
        next htoken => exact (finite_sites_iff _).mpr (ha (by simpa using htoken))
  | @pushed next site sites now hpc =>
      refine ⟨fun next' sites' hpc' => ?_, fun next' site' sites' hpc' _ => ?_⟩
      · obtain ⟨rfl, rfl⟩ := Pc.pushing.inj hpc'
        exact fun site' hsite' => h next _ hpc site' (List.mem_cons_of_mem _ hsite')
      · exact h next' _ hpc' site' (List.mem_cons_self ..)
  | read | dropped => exact ⟨fun _ _ hpc => (by cases hpc), fun i hpc _ => ha i hpc⟩
  | quit | polled | failed | skipped | ended | left | acceptFailed | accepted | turnedAway =>
      exact ⟨fun _ _ hpc => (by cases hpc), trivial⟩
  | interrupted | hungUp | sent | sentRaw | consumed => exact ⟨h, trivial⟩

/-- Finite inputs are finite records. -/
theorem finiteRecord_of_finiteInput {as : List Action} {s : State}
    (hrun : (machine sk (parseDatagram lib)).run as = some s)
    (h : (machine sk (parseDatagram lib)).EachStep as (FiniteInput lib)) :
    (machine sk (parseDatagram lib)).EachStep as FiniteRecord := by
  have hpending := Machine.always_of_eachStep (m := machine sk (parseDatagram lib))
    (I := State.PendingFinite) (fun _ _ hpc => by cases hpc)
    (fun hI hs hC => ((step_cases hs).pendingFinite hI hC).1) hrun h
  intro pre a hpre t ht
  obtain ⟨rest, rfl⟩ := hpre
  obtain ⟨t', ht', -⟩ := Machine.exists_run_of_append hrun
  obtain ⟨t'', ht'', hs⟩ := Machine.run_concat_eq_some.mp ht'
  rw [ht, Option.some.injEq] at ht''
  subst ht''
  have hbefore := (List.prefix_append pre [a]).trans (List.prefix_append _ rest)
  exact ((step_cases hs).pendingFinite (hpending pre hbefore t ht)
    (h pre a (List.prefix_append _ _) t ht)).2

/-- Along any run, the ring is clean just when every record that goes into it is
finite.  It is when every number that arrives is. -/
theorem clean_iff (lib : Library) {as : List Action} {s : State}
    (hrun : (machine sk (parseDatagram lib)).run as = some s) :
    ((machine sk (parseDatagram lib)).Always as State.Clean ↔
        (machine sk (parseDatagram lib)).EachStep as FiniteRecord) ∧
      ((machine sk (parseDatagram lib)).EachStep as (FiniteInput lib) →
        (machine sk (parseDatagram lib)).Always as State.Clean) := by
  have hiff : (machine sk (parseDatagram lib)).Always as State.Clean ↔
      (machine sk (parseDatagram lib)).EachStep as FiniteRecord :=
    Machine.always_iff_eachStep
      (State.clean_iff_finite.mpr (by simp [machine, start, Store.init]))
      (fun _ hclean hs => (step_cases hs).finiteRecord_iff hclean) hrun
  exact ⟨hiff, fun h => hiff.mpr (finiteRecord_of_finiteInput hrun h)⟩

/-- A datagram arrives that says `nan`. -/
def nanDatagram : List Action := [.poll (onlyAt 0), .recvfrom (ascii "1,nan") true]

/-- Its record is a NaN, with any library. -/
theorem sites_nanDatagram (lib : Library) :
    handleUdpRead (parseDatagram lib) (ascii "1,nan") true =
      [.single 1 ⟨Binary64.quietNaN false⟩] := by
  have hheader : header (ascii "1,nan") = some ⟨.none, ascii "1", true, ascii "nan"⟩ := by rfl
  have hscan : scanNumeral lib.lenient (skipSpace (ascii "nan")) =
      some ⟨.nan .none, true, []⟩ := by
    cases lib.lenient <;> rfl
  have hone : Header.sensorId ⟨.none, ascii "1", true, ascii "nan"⟩ lib = 1 :=
    lib.toUnsigned_of_lt (by decide)
  rw [handleUdpRead_single (by decide) (by decide) (by decide), parseSingle_eq, hheader,
    Option.bind_some, Header.read_eq, hscan, hone]
  rfl

/-- The loop comes to the push site of that record, and the ring is empty. -/
theorem exists_run_nanDatagram (lib : Library) :
    ∃ s, (machine .usual (parseDatagram lib)).run nanDatagram = some s ∧
      s.pc = .pushing 1 [.single 1 ⟨Binary64.quietNaN false⟩] ∧ s.store = .init := by
  have hread : Readable .usual ((Sockets.usual.table).poll (onlyAt 0)) 0 .udp := by decide
  have hrun : (machine .usual (parseDatagram lib)).run nanDatagram = some { start .usual with
      table := Sockets.usual.table.poll (onlyAt 0)
      pc := .pushing 1 (handleUdpRead (parseDatagram lib) (ascii "1,nan") true)
      polled := (Sockets.usual.table.poll (onlyAt 0)).ready
      serviced := [3] } := by
    simp only [nanDatagram, Machine.run, Machine.runFrom_cons, machine, start, step,
      Option.bind_some, if_pos hread, Machine.runFrom_nil]
    rfl
  exact ⟨_, hrun, congrArg (Pc.pushing 1) (sites_nanDatagram lib), rfl⟩

/-- The NaN goes into the ring. -/
theorem clean_iff_nanDatagram : ¬ (machine .usual (parseDatagram glibc)).Always
    (nanDatagram ++ [.push 0]) State.Clean := by
  obtain ⟨s, hs, hpc, hstore⟩ := exists_run_nanDatagram glibc
  have hpush : (machine .usual (parseDatagram glibc)).run (nanDatagram ++ [.push 0]) =
      some { s with
        store := s.store.pushUdp (.single 1 ⟨Binary64.quietNaN false⟩) 0
        pc := .pushing 1 [] } := by
    rw [Machine.run_concat, hs]
    simp only [Option.bind_some, machine, step, hpc]
  intro h
  have hfinite := (clean_iff glibc hpush).1.mp h nanDatagram (.push 0) (List.prefix_refl _) s hs
    1 _ [] hpc (by rw [hstore]; decide)
  exact absurd hfinite (by decide)

/-- One datagram is enough, with any library. -/
theorem nan_datagram_poisons :
    ¬ ∃ lib, ∀ s, (machine .usual (parseDatagram lib)).Reachable s → s.Clean := by
  rintro ⟨lib, h⟩
  obtain ⟨s, hs, hpc, hstore⟩ := exists_run_nanDatagram lib
  have hstep : (machine .usual (parseDatagram lib)).step s (.push 0) = some { s with
      store := s.store.pushUdp (.single 1 ⟨Binary64.quietNaN false⟩) 0
      pc := .pushing 1 [] } := by
    simp only [machine, step, hpc]
  have hroom : s.store.queue.occupancy ≠ 1023 := by
    rw [hstore]
    decide
  have hcontents := (Store.pushUdp_of_room hroom (.single 1 ⟨Binary64.quietNaN false⟩) 0).1
  have hfinite := (h _ ((Machine.Reachable.of_run hs).step hstep)).finite
  dsimp only at hfinite
  rw [hcontents] at hfinite
  exact absurd (hfinite _ (List.mem_append_right _ (List.mem_singleton_self _))) (by decide)

end IotEdge.EventLoop
