import IotEdge.Gateway.PollService

/-!
# Reads of clients that are not ready

The sockets of clients are blocking, so a client should be read only when the
`poll` of this pass reported it.  The inner loop tests `revents`, and that field
survives in a slot when its client is removed.  A client that is accepted later
gets the slot with the old `revents`, is in the part of the table still ahead,
and is read in the same pass.

`ReadsReady` is about the state before a `read`, so it does not depend on what
the `read` does.  `Stale` is a client that is going to be read in this pass and
was not reported.  A pass cannot end while there is one, so `reads_ready_iff` is
exact: along a run that ends between two passes, only clients that are ready are
read just when no client was put into a slot that still showed `POLLIN`.
-/

namespace IotEdge.EventLoop

variable {sk : Sockets} {parse : List UInt8 → UdpMessage}

/-- If the loop is about to call `read`, the `poll` of this pass reported the
client. -/
def ReadsReady (sk : Sockets) (s : State) : Prop :=
  ∀ i, s.pc = .scanning i → Readable sk s.table i .client → s.fd i ∈ s.polled

/-- A client is put only into a slot that does not show `POLLIN`. -/
def CleanSlot (s : State) : Action → Prop
  | .accept clientFd =>
      0 ≤ clientFd → s.table.nfds < maxPollFds → (s.table.fds s.table.nfds).readable = false
  | _ => True

/-- A readable entry of a client that was not reported. -/
def StaleEntry (sk : Sockets) (polled : List Int) (e : PollFd) : Prop :=
  e.readable = true ∧ sk.source e.fd = .client ∧ e.fd ∉ polled

/-- There is such an entry ahead, wherever the loop is. -/
def StaleAt (sk : Sockets) (t : PollTable) (polled : List Int) : Pc → Prop
  | .atPoll | .stopped => False
  | .scanning i | .pushing i _ => ∃ e, t.Ahead i e ∧ StaleEntry sk polled e

/-- A client that was not reported is going to be read in this pass. -/
def Stale (sk : Sockets) (s : State) : Prop := StaleAt sk s.table s.polled s.pc

/-! ## Where stale entries come from -/

theorem not_staleAt_succ {t : PollTable} {polled : List Int} {i : Nat}
    (h : ¬ StaleAt sk t polled (.scanning i)) : ¬ StaleAt sk t polled (.scanning (i + 1)) := by
  rintro ⟨e, he, hstale⟩
  exact h ⟨e, he.of_succ, hstale⟩

theorem not_staleAt_remove {t : PollTable} {polled : List Int} {i : Nat} (hi : i < t.nfds)
    (h : ¬ StaleAt sk t polled (.scanning i)) : ¬ StaleAt sk (t.remove i) polled (.scanning i) := by
  rintro ⟨e, he, hstale⟩
  exact h ⟨e, ((PollTable.ahead_remove hi).mp he).of_succ, hstale⟩

theorem not_staleAt_poll (t : PollTable) : ¬ StaleAt sk t t.ready (.scanning 0) := by
  rintro ⟨e, he, hread, -, hnot⟩
  exact hnot (PollTable.mem_ready.mpr ⟨e, he, rfl, hread⟩)

/-- A client that is appended is stale just when its slot shows `POLLIN`. -/
theorem not_staleAt_register {t : PollTable} {polled : List Int} {i : Nat} (hi : i ≤ t.nfds)
    {fd : Int} (hclient : sk.source fd = .client) (hnot : fd ∉ polled)
    (h : ¬ StaleAt sk t polled (.scanning i)) :
    ¬ StaleAt sk (t.register fd) polled (.scanning i) ↔ (t.fds t.nfds).readable = false := by
  rw [← PollTable.readable_register_self t fd]
  constructor
  · intro hclean
    by_contra hread
    refine hclean ⟨_, (PollTable.ahead_register hi).mpr (.inr rfl), by simpa using hread, ?_⟩
    rw [PollTable.fd_register_self]
    exact ⟨hclient, hnot⟩
  · rintro hread ⟨e, he, hstale⟩
    rcases (PollTable.ahead_register hi).mp he with he | rfl
    · exact h ⟨e, he, hstale⟩
    · exact absurd (hread.symm.trans hstale.1) Bool.false_ne_true

/-- Without stale entries the client at the index was reported. -/
theorem readsReady_of_not_stale {s : State} (h : ¬ Stale sk s) : ReadsReady sk s := by
  intro i hpc hslot
  by_contra hnot
  rw [Stale] at h
  rw [hpc] at h
  exact h ⟨_, PollTable.ahead_self hslot.1, hslot.2.1, hslot.2.2, hnot⟩

/-! ## Every step -/

/-- A step keeps the pass free of stale entries just when it meets `CleanSlot`. -/
theorem Step.not_stale_iff {s s' : State} {a : Action} (hi : LoopInv sk s) (hstale : ¬ Stale sk s)
    (hs : Step sk parse s a s') : ¬ Stale sk s' ↔ CleanSlot s a := by
  rw [Stale] at hstale
  cases hs with
  | quit _ | failed _ | ended _ _ => exact iff_of_true id trivial
  | polled _ => exact iff_of_true (not_staleAt_poll _) trivial
  | interrupted | sent | sentRaw | consumed => exact iff_of_true hstale trivial
  | skipped hpc _ _ | received hpc _ | read hpc _ _ _ _ _ | dropped hpc _ _ _ _ _ =>
      rw [hpc] at hstale
      exact iff_of_true (not_staleAt_succ hstale) trivial
  | pushed hpc | left hpc =>
      rw [hpc] at hstale
      exact iff_of_true hstale trivial
  | acceptFailed hpc _ hneg =>
      rw [hpc] at hstale
      exact iff_of_true (not_staleAt_succ hstale) fun hfd => absurd hneg (Int.not_lt.mpr hfd)
  | turnedAway hpc _ _ _ hfull =>
      rw [hpc] at hstale
      exact iff_of_true (not_staleAt_succ hstale) fun _ hroom =>
        absurd hfull (Nat.not_le_of_lt hroom)
  | accepted hpc hslot hfresh hfd hroom =>
      rw [hpc] at hstale
      obtain ⟨hclient, hnot⟩ := hi.accepted hpc hslot hfresh hfd
      have hiff := not_staleAt_register hslot.1 hclient hnot (not_staleAt_succ hstale)
      exact hiff.trans ⟨fun hread _ _ => hread, fun hclean => hclean hfd hroom⟩
  | @hungUp i hpc hslot =>
      rw [hpc] at hstale
      refine iff_of_true ?_ trivial
      show ¬ StaleAt sk (s.table.remove i) s.polled s.pc
      rw [hpc]
      exact not_staleAt_remove hslot.1 hstale

/-- When the entry at the index is serviced and only clients that are ready are
read, a stale entry is behind it. -/
theorem StaleAt.service {s : State} (hready : ReadsReady sk s) {i : Nat} {src : Source}
    (h : StaleAt sk s.table s.polled (.scanning i)) (hpc : s.pc = .scanning i)
    (hslot : Readable sk s.table i src) : StaleAt sk s.table s.polled (.scanning (i + 1)) := by
  obtain ⟨e, he, hread, hclient, hnot⟩ := h
  rcases he.eq_or_succ with rfl | he
  · exact absurd (hready i hpc ⟨hslot.1, hread, hclient⟩) hnot
  · exact ⟨e, he, hread, hclient, hnot⟩

/-- A stale entry stays until its client is read. -/
theorem Step.stale {s s' : State} {a : Action} (hstale : Stale sk s) (hready : ReadsReady sk s)
    (hs : Step sk parse s a s') : Stale sk s' := by
  rw [Stale] at hstale ⊢
  cases hs with
  | quit hpc | failed hpc | polled hpc | interrupted hpc =>
      rw [hpc] at hstale
      exact hstale.elim
  | sent | sentRaw | consumed => exact hstale
  | ended hpc hend =>
      rw [hpc] at hstale
      obtain ⟨e, he, -⟩ := hstale
      exact absurd he (PollTable.not_ahead_of_le hend e)
  | skipped hpc _ hnot =>
      rw [hpc] at hstale
      obtain ⟨e, he, hentry⟩ := hstale
      rcases he.eq_or_succ with rfl | he
      · exact absurd (hnot.symm.trans hentry.1) Bool.false_ne_true
      · exact ⟨e, he, hentry⟩
  | received hpc hslot | acceptFailed hpc hslot _ | turnedAway hpc hslot _ _ _
  | read hpc hslot _ _ _ _ | dropped hpc hslot _ _ _ _ =>
      rw [hpc] at hstale
      exact hstale.service hready hpc hslot
  | pushed hpc | left hpc =>
      rw [hpc] at hstale
      exact hstale
  | accepted hpc hslot _ _ _ =>
      rw [hpc] at hstale
      obtain ⟨e, he, hentry⟩ := hstale.service hready hpc hslot
      exact ⟨e, (PollTable.ahead_register hslot.1).mpr (.inl he), hentry⟩
  | @hungUp i hpc hslot =>
      rw [hpc] at hstale
      obtain ⟨e, he, hentry⟩ := hstale.service hready hpc hslot
      show StaleAt sk (s.table.remove i) s.polled s.pc
      rw [hpc]
      exact ⟨e, (PollTable.ahead_remove hslot.1).mpr he, hentry⟩

/-- A pass does not end before the client of a stale entry is read. -/
theorem Stale.read_of_runFrom {s s' : State} {bs : List Action} (hstale : Stale sk s)
    (hrun : (machine sk parse).runFrom s bs = some s') (hend : s'.pc = .atPoll) :
    ∃ pre t, pre <+: bs ∧ (machine sk parse).runFrom s pre = some t ∧ ¬ ReadsReady sk t := by
  induction bs generalizing s with
  | nil =>
      rw [Machine.runFrom_nil, Option.some.injEq] at hrun
      subst hrun
      rw [Stale] at hstale
      rw [hend] at hstale
      exact hstale.elim
  | cons b bs ih =>
      by_cases hready : ReadsReady sk s
      · obtain ⟨t, hb, hrest⟩ := Machine.runFrom_cons_eq_some.mp hrun
        obtain ⟨pre, u, hpre, hu, hnot⟩ := ih ((step_cases hb).stale hstale hready) hrest
        exact ⟨b :: pre, u, (List.prefix_cons_inj b).mpr hpre,
          Machine.runFrom_cons_eq_some.mpr ⟨t, hb, hu⟩, hnot⟩
      · exact ⟨[], s, List.nil_prefix, rfl, hready⟩

/-! ## Runs -/

/-- Along any run, a pass never has a stale entry just when every client gets a
clean slot. -/
theorem always_not_stale_iff {as : List Action} {s : State}
    (hrun : (machine sk parse).run as = some s) :
    (machine sk parse).Always as (fun s => ¬ Stale sk s) ↔
      (machine sk parse).EachStep as CleanSlot := by
  refine Machine.always_iff_eachStep id ?_ hrun
  intro s a s' hr hstale hs
  exact (step_cases hs).not_stale_iff (LoopInv.of_reachable hr) hstale

/-- Along a run in which every client gets a clean slot, the loop reads only
clients that are ready.  Along a run that ends between two passes this is the
only way. -/
theorem reads_ready_iff {as : List Action} {s : State}
    (hrun : (machine sk parse).run as = some s) :
    ((machine sk parse).EachStep as CleanSlot → (machine sk parse).Always as (ReadsReady sk)) ∧
      (s.pc = .atPoll →
        ((machine sk parse).Always as (ReadsReady sk) ↔
          (machine sk parse).EachStep as CleanSlot)) := by
  have hclean : (machine sk parse).EachStep as CleanSlot →
      (machine sk parse).Always as (ReadsReady sk) :=
    fun h => ((always_not_stale_iff hrun).mpr h).mono fun _ => readsReady_of_not_stale
  refine ⟨hclean, fun hend => ⟨fun hready => ?_, hclean⟩⟩
  refine (always_not_stale_iff hrun).mp fun pre hpre t ht hstale => ?_
  obtain ⟨rest, rfl⟩ := hpre
  rw [Machine.run_append, ht, Option.bind_some] at hrun
  obtain ⟨pre', u, hpre', hu, hnot⟩ := hstale.read_of_runFrom hrun hend
  exact hnot (hready.of_runFrom ht hpre' hu)

/-- A client is accepted, goes away, and the next one asks to be accepted. -/
def slotReuse : List Action :=
  [.poll (onlyAt 1), .skip, .accept 7, .skip, .endPass,
    .poll (onlyAt 2), .skip, .skip, .hangup, .endPass, .poll (onlyAt 1), .skip]

/-- The rest of the pass. -/
def slotReused : List Action :=
  [.accept 8, .send 8 ⟨16790, ⟨0⟩⟩ 0, .read 16 [], .endPass]

/-- The next client does not get a clean slot. -/
theorem reads_ready_iff_slotReuse : ¬ (machine .usual fun _ => .unknown).Always
    (slotReuse ++ slotReused) (ReadsReady .usual) := by
  have hend : ((machine .usual fun _ => .unknown).run (slotReuse ++ slotReused)).map State.pc =
      some .atPoll := by decide
  have hslot : ((machine .usual fun _ => .unknown).run slotReuse).map
      (fun s => (s.table.nfds, (s.table.fds s.table.nfds).readable)) = some (2, true) := by decide
  obtain ⟨s', hs', hpc⟩ := Option.map_eq_some_iff.mp hend
  obtain ⟨s, hs, heq⟩ := Option.map_eq_some_iff.mp hslot
  obtain ⟨hnfds, hread⟩ := Prod.mk.inj heq
  intro h
  have hclean := ((reads_ready_iff hs').2 hpc).mp h slotReuse (.accept 8)
    ⟨_, List.append_assoc _ _ _⟩ s hs (by decide) (by rw [hnfds]; decide)
  rw [hread] at hclean
  cases hclean

/-- The next client is read in the pass it is accepted in. -/
theorem unready_client_read :
    ¬ ∀ s, (machine .usual fun _ => .unknown).Reachable s → ReadsReady .usual s := by
  intro h
  have hrun : ((machine .usual fun _ => .unknown).run (slotReuse ++ [.accept 8])).map
      (fun s => (s.pc, s.polled, s.fd 2, decide (Readable .usual s.table 2 .client))) =
        some (.scanning 2, [4], 8, true) := by decide
  obtain ⟨s, hs, heq⟩ := Option.map_eq_some_iff.mp hrun
  obtain ⟨hpc, hpolled, hfd, hslot⟩ : s.pc = .scanning 2 ∧ s.polled = [4] ∧ s.fd 2 = 8 ∧
      Readable .usual s.table 2 .client := by
    simpa only [Prod.mk.injEq, decide_eq_true_eq] using heq
  have hmem := h s ⟨_, hs⟩ 2 hpc hslot
  rw [hpolled, hfd] at hmem
  exact absurd hmem (by decide)

end IotEdge.EventLoop
