import IotEdge.Gateway.EventLoop
import Mathlib.Data.List.Count

/-!
# The poll table over passes

The inner loop changes the table it goes over.  `TableInv` holds of the table at
any time.  The entries behind the index are done with, and the ones from it on
are still to be looked at.  `PassInv` says that a descriptor `poll` reported is
either serviced once and not ahead of the index any more, or not serviced and
ahead of it, with its `revents` as they were.

A client that is accepted must not be one of those, or it would be looked at
twice.  It is not: the listening sockets stay in front of all clients, so no
client has been removed in this pass when `accept` is called, and `accept` does
not return a descriptor that is in use.

A pass is as long as the table, and the table may grow while it lasts.
`pass_terminates` bounds it all the same.
-/

namespace IotEdge.EventLoop

variable {sk : Sockets} {parse : List UInt8 → UdpMessage}

/-! ## The table -/

/-- What holds of the table. -/
structure TableInv (sk : Sockets) (t : PollTable) : Prop where
  /-- The table is large enough. -/
  nfds_le : t.nfds ≤ maxPollFds
  /-- The descriptors in use are valid. -/
  nonneg : ∀ {fd}, t.Holds fd → 0 ≤ fd
  /-- They are distinct. -/
  distinct : t.Distinct
  /-- The other slots hold `-1`. -/
  freeAbove : t.FreeAbove
  /-- The listening sockets are in use. -/
  listeners : ∀ {fd}, sk.IsListener fd → t.Holds fd
  /-- They are in front. -/
  order : ∀ {j k}, j ≤ k → k < t.nfds → sk.IsListener (t.fds k).fd → sk.IsListener (t.fds j).fd

theorem TableInv.poll {t : PollTable} (h : TableInv sk t) (revents : Nat → UInt16) :
    TableInv sk (t.poll revents) where
  nfds_le := h.nfds_le
  nonneg := fun hheld => h.nonneg (PollTable.holds_poll.mp hheld)
  distinct := h.distinct.poll revents
  freeAbove := h.freeAbove.poll revents
  listeners := fun hl => PollTable.holds_poll.mpr (h.listeners hl)
  order := fun hjk hk hl => by
    rw [PollTable.fd_poll] at hl ⊢
    exact h.order hjk hk hl

theorem TableInv.register {t : PollTable} (h : TableInv sk t) {fd : Int} (hfd : 0 ≤ fd)
    (hfresh : ¬ t.Holds fd) (hroom : t.nfds < maxPollFds) : TableInv sk (t.register fd) where
  nfds_le := hroom
  nonneg := fun hheld => by
    rcases PollTable.holds_register.mp hheld with hold | rfl
    · exact h.nonneg hold
    · exact hfd
  distinct := h.distinct.register hfresh
  freeAbove := h.freeAbove.register fd
  listeners := fun hl => PollTable.holds_register.mpr (.inl (h.listeners hl))
  order := fun {j k} hjk hk hl => by
    rcases Nat.lt_succ_iff_lt_or_eq.mp hk with hlt | rfl
    · rw [PollTable.fds_register_of_lt hlt] at hl
      rw [PollTable.fds_register_of_lt (Nat.lt_of_le_of_lt hjk hlt)]
      exact h.order hjk hlt hl
    · rw [PollTable.fd_register_self] at hl
      exact absurd (h.listeners hl) hfresh

theorem TableInv.remove {t : PollTable} (h : TableInv sk t) {i : Nat} (hi : i < t.nfds)
    (hclient : ¬ sk.IsListener (t.fds i).fd) : TableInv sk (t.remove i) where
  nfds_le := Nat.le_trans (Nat.sub_le _ _) h.nfds_le
  nonneg := fun hheld => h.nonneg ((PollTable.holds_remove h.distinct hi).mp hheld).1
  distinct := h.distinct.remove i
  freeAbove := h.freeAbove.remove hi
  listeners := fun hl => by
    refine (PollTable.holds_remove h.distinct hi).mpr ⟨h.listeners hl, ?_⟩
    rintro rfl
    exact hclient hl
  order := fun {j k} hjk hk hl => by
    have hj := Nat.lt_of_le_of_lt hjk hk
    rw [PollTable.fds_remove hk] at hl
    rw [PollTable.fds_remove hj]
    -- A listening socket is in front of the client, so nothing is moved there.
    have hbefore : k < i := by
      by_contra hge
      exact hclient (h.order (PollTable.le_origin (Nat.le_of_not_lt hge) hk)
        (PollTable.origin_lt hk) hl)
    rw [PollTable.origin, if_neg (Nat.ne_of_lt hbefore)] at hl
    rw [PollTable.origin, if_neg (Nat.ne_of_lt (Nat.lt_of_le_of_lt hjk hbefore))]
    exact h.order hjk (by omega) hl

theorem Sockets.isListener_iff {sk : Sockets} {fd : Int} :
    sk.IsListener fd ↔ 0 ≤ fd ∧ (fd = sk.udpSock ∨ fd = sk.ipcSock) := by
  refine and_congr_right fun _ => ?_
  rw [source]
  split
  next h => simp [h]
  next h => split <;> simp [*]

/-- The loop starts with the listening sockets that are valid. -/
theorem Sockets.holds_table (sk : Sockets) (fd : Int) : sk.table.Holds fd ↔ sk.IsListener fd := by
  rw [isListener_iff]
  have hempty := PollTable.not_holds_empty fd
  rw [table]
  by_cases hudp : 0 ≤ sk.udpSock
  · by_cases hipc : 0 ≤ sk.ipcSock
    · simp only [if_pos hudp, if_pos hipc, PollTable.holds_register, hempty, false_or]
      exact ⟨fun h => ⟨by omega, h⟩, And.right⟩
    · simp only [if_pos hudp, if_neg hipc, PollTable.holds_register, hempty, false_or]
      omega
  · by_cases hipc : 0 ≤ sk.ipcSock
    · simp only [if_neg hudp, if_pos hipc, PollTable.holds_register, hempty, false_or]
      omega
    · simp only [if_neg hudp, if_neg hipc, hempty, false_iff]
      omega

theorem Sockets.distinct_table (sk : Sockets) : sk.table.Distinct := by
  have hudp : (PollTable.empty.register sk.udpSock).Distinct :=
    PollTable.distinct_empty.register (PollTable.not_holds_empty _)
  unfold table
  split
  next h =>
    split
    next =>
      refine hudp.register fun hheld => ?_
      rcases PollTable.holds_register.mp hheld with hnone | heq
      · exact PollTable.not_holds_empty _ hnone
      · exact sk.distinct h heq.symm
    next => exact hudp
  next =>
    split
    next => exact PollTable.distinct_empty.register (PollTable.not_holds_empty _)
    next => exact PollTable.distinct_empty

theorem tableInv_table (sk : Sockets) : TableInv sk sk.table where
  nfds_le := by
    rw [Sockets.table]
    split <;> split <;> simp [maxPollFds]
  nonneg := fun hheld => ((sk.holds_table _).mp hheld).1
  distinct := sk.distinct_table
  freeAbove := by
    rw [Sockets.table]
    split <;> split <;> simp only [PollTable.FreeAbove.register, PollTable.freeAbove_empty]
  listeners := fun hl => (sk.holds_table _).mpr hl
  order := fun hjk hk _ => (sk.holds_table _).mp ⟨_, Nat.lt_of_le_of_lt hjk hk, rfl⟩

/-! ## Clients -/

/-- A client has been accepted once more often than it was closed while it is in
the table, and as often otherwise. -/
def ClientInv (sk : Sockets) (t : PollTable) (accepted closed : List Int) : Prop :=
  ∀ fd, accepted.count fd = closed.count fd + if t.Holds fd ∧ ¬ sk.IsListener fd then 1 else 0

theorem ClientInv.congr {t t' : PollTable} {accepted closed : List Int}
    (h : ClientInv sk t accepted closed) (hholds : ∀ fd, t'.Holds fd ↔ t.Holds fd) :
    ClientInv sk t' accepted closed := by
  intro fd
  simp only [hholds]
  exact h fd

theorem ClientInv.register {t : PollTable} {accepted closed : List Int}
    (h : ClientInv sk t accepted closed) {fd : Int} (hfresh : ¬ t.Holds fd)
    (hclient : ¬ sk.IsListener fd) :
    ClientInv sk (t.register fd) (accepted ++ [fd]) closed := by
  intro fd'
  rw [List.count_append, List.count_singleton, h fd']
  simp only [PollTable.holds_register]
  by_cases heq : fd' = fd
  · subst heq
    simp [hfresh, hclient]
  · simp [heq, Ne.symm heq]

theorem ClientInv.remove {t : PollTable} {accepted closed : List Int}
    (h : ClientInv sk t accepted closed) (hdistinct : t.Distinct) {i : Nat} (hi : i < t.nfds)
    (hclient : ¬ sk.IsListener (t.fds i).fd) :
    ClientInv sk (t.remove i) accepted (closed ++ [(t.fds i).fd]) := by
  intro fd'
  rw [List.count_append, List.count_singleton, h fd']
  simp only [PollTable.holds_remove hdistinct hi]
  by_cases heq : fd' = (t.fds i).fd
  · subst heq
    have hheld : t.Holds (t.fds i).fd := ⟨i, hi, rfl⟩
    simp [hheld, hclient]
  · simp [heq, Ne.symm heq]

theorem ClientInv.turnAway {t : PollTable} {accepted closed : List Int}
    (h : ClientInv sk t accepted closed) (fd : Int) :
    ClientInv sk t (accepted ++ [fd]) (closed ++ [fd]) := by
  intro fd'
  rw [List.count_append, List.count_append, h fd']
  omega

/-! ## One pass -/

/-- What holds in a pass that goes on with the index `i`. -/
structure PassInv (sk : Sockets) (t : PollTable) (i : Nat) (polled serviced : List Int) :
    Prop where
  /-- A descriptor that was reported is done with or still to come. -/
  once : ∀ fd ∈ polled, (serviced.count fd = 1 ∧ ∀ e, t.Ahead i e → e.fd ≠ fd) ∨
    (serviced.count fd = 0 ∧ ∃ e, t.Ahead i e ∧ e.fd = fd ∧ e.readable = true)
  /-- Before `accept`, no descriptor that was reported has been removed. -/
  held : ∀ e, t.Ahead i e → sk.source e.fd = .ipc → ∀ fd ∈ polled, t.Holds fd

theorem passInv_poll (sk : Sockets) (t : PollTable) : PassInv sk t 0 t.ready [] where
  once := fun _ hfd => .inr ⟨List.count_nil, PollTable.mem_ready.mp hfd⟩
  held := fun _ _ _ fd hfd => by
    obtain ⟨e, he, rfl, -⟩ := PollTable.mem_ready.mp hfd
    exact he.holds

/-- An entry that is not readable. -/
theorem PassInv.skip {t : PollTable} {i : Nat} {polled serviced : List Int}
    (h : PassInv sk t i polled serviced) (hnot : (t.fds i).readable = false) :
    PassInv sk t (i + 1) polled serviced where
  once := fun fd hfd => by
    rcases h.once fd hfd with ⟨hcount, hdone⟩ | ⟨hcount, e, he, hefd, hread⟩
    · exact .inl ⟨hcount, fun e he => hdone e he.of_succ⟩
    · rcases he.eq_or_succ with rfl | he
      · rw [hread] at hnot
        cases hnot
      · exact .inr ⟨hcount, e, he, hefd, hread⟩
  held := fun e he => h.held e he.of_succ

/-- Servicing the entry at the index: its descriptor is done with, and the others
are as they were. -/
theorem PassInv.once_service {t : PollTable} {i : Nat} {polled serviced : List Int}
    (h : PassInv sk t i polled serviced) (hdistinct : t.Distinct) (hi : i < t.nfds) :
    ∀ fd ∈ polled,
      ((serviced ++ [(t.fds i).fd]).count fd = 1 ∧ ∀ e, t.Ahead (i + 1) e → e.fd ≠ fd) ∨
      ((serviced ++ [(t.fds i).fd]).count fd = 0 ∧
        ∃ e, t.Ahead (i + 1) e ∧ e.fd = fd ∧ e.readable = true) := by
  intro fd hfd
  rw [List.count_append, List.count_singleton]
  by_cases heq : (t.fds i).fd = fd
  · subst heq
    rcases h.once _ hfd with ⟨-, hdone⟩ | ⟨hcount, -⟩
    · exact absurd rfl (hdone _ (PollTable.ahead_self hi))
    · exact .inl ⟨by simp [hcount], fun e he => hdistinct.ne_of_ahead_succ hi he⟩
  · have hzero : (if (t.fds i).fd == fd then 1 else 0) = 0 := by simp [heq]
    rw [hzero, Nat.add_zero]
    rcases h.once fd hfd with ⟨hcount, hdone⟩ | ⟨hcount, e, he, hefd, hread⟩
    · exact .inl ⟨hcount, fun e he => hdone e he.of_succ⟩
    · rcases he.eq_or_succ with rfl | he
      · exact absurd hefd heq
      · exact .inr ⟨hcount, e, he, hefd, hread⟩

/-- An entry that is serviced and stays. -/
theorem PassInv.service {t : PollTable} {i : Nat} {polled serviced : List Int}
    (h : PassInv sk t i polled serviced) (hdistinct : t.Distinct) (hi : i < t.nfds) :
    PassInv sk t (i + 1) polled (serviced ++ [(t.fds i).fd]) where
  once := h.once_service hdistinct hi
  held := fun e he => h.held e he.of_succ

/-- A client that is serviced and removed.  The entry moved into its place is
still ahead. -/
theorem PassInv.remove {t : PollTable} {i : Nat} {polled serviced : List Int}
    (h : PassInv sk t i polled serviced) (hinv : TableInv sk t) (hi : i < t.nfds)
    (hclient : ¬ sk.IsListener (t.fds i).fd) :
    PassInv sk (t.remove i) i polled (serviced ++ [(t.fds i).fd]) where
  once := by
    simp only [PollTable.ahead_remove hi]
    exact h.once_service hinv.distinct hi
  held := fun e he hipc => by
    -- The listening socket would be behind a client.
    obtain ⟨j, hij, hj, rfl⟩ := (PollTable.ahead_remove hi).mp he
    have hlistener : sk.IsListener (t.fds j).fd :=
      ⟨hinv.nonneg ⟨j, hj, rfl⟩, by rw [hipc]; simp⟩
    exact absurd (hinv.order (Nat.le_of_succ_le hij) hj hlistener) hclient

/-- A client that was accepted is not one that was reported. -/
theorem PassInv.register {t : PollTable} {i : Nat} {polled serviced : List Int}
    (h : PassInv sk t i polled serviced) (hi : i ≤ t.nfds) {fd : Int} (hfd : fd ∉ polled)
    (hclient : sk.source fd = .client) : PassInv sk (t.register fd) i polled serviced where
  once := fun fd' hfd' => by
    simp only [PollTable.ahead_register hi]
    rcases h.once fd' hfd' with ⟨hcount, hdone⟩ | ⟨hcount, e, he, hefd⟩
    · refine .inl ⟨hcount, fun e he => ?_⟩
      rcases he with he | rfl
      · exact hdone e he
      · rw [PollTable.fd_register_self]
        exact (ne_of_mem_of_not_mem hfd' hfd).symm
    · exact .inr ⟨hcount, e, .inl he, hefd⟩
  held := fun e he hipc fd' hfd' => by
    rcases (PollTable.ahead_register hi).mp he with he | rfl
    · exact PollTable.holds_register.mpr (.inl (h.held e he hipc fd' hfd'))
    · rw [PollTable.fd_register_self, hclient] at hipc
      cases hipc

/-! ## Every step -/

/-- The descriptors that were reported, wherever the loop is. -/
def PassAt (sk : Sockets) (t : PollTable) (polled serviced : List Int) : Pc → Prop
  | .atPoll | .stopped => ∀ fd ∈ polled, serviced.count fd = 1
  | .scanning i | .pushing i _ => PassInv sk t i polled serviced

/-- What holds of every reachable state. -/
structure LoopInv (sk : Sockets) (s : State) : Prop where
  /-- The table. -/
  table : TableInv sk s.table
  /-- The clients. -/
  clients : ClientInv sk s.table s.accepted s.closed
  /-- The pass in progress. -/
  pass : PassAt sk s.table s.polled s.serviced s.pc

theorem loopInv_start (sk : Sockets) : LoopInv sk (start sk) where
  table := tableInv_table sk
  clients := fun fd => by
    have hnone : ¬ (sk.table.Holds fd ∧ ¬ sk.IsListener fd) := by
      rw [sk.holds_table]
      exact and_not_self
    show 0 = 0 + if sk.table.Holds fd ∧ ¬ sk.IsListener fd then 1 else 0
    rw [if_neg hnone]
  pass := fun fd hfd => by cases hfd

theorem Readable.not_isListener {t : PollTable} {i : Nat} (h : Readable sk t i .client) :
    ¬ sk.IsListener (t.fds i).fd := fun hl => hl.2 h.2.2

/-- The end of a pass: every descriptor that was reported has been serviced once. -/
theorem PassInv.ended {t : PollTable} {i : Nat} {polled serviced : List Int}
    (h : PassInv sk t i polled serviced) (hi : t.nfds ≤ i) :
    ∀ fd ∈ polled, serviced.count fd = 1 := by
  intro fd hfd
  rcases h.once fd hfd with ⟨hcount, -⟩ | ⟨-, e, he, -⟩
  · exact hcount
  · exact absurd he (PollTable.not_ahead_of_le hi e)

/-- A client that is accepted was not reported in this pass. -/
theorem LoopInv.accepted {s : State} (h : LoopInv sk s) {i : Nat} {clientFd : Int}
    (hpc : s.pc = .scanning i) (hslot : Readable sk s.table i .ipc)
    (hfresh : ¬ s.table.Holds clientFd) (hfd : 0 ≤ clientFd) :
    sk.source clientFd = .client ∧ clientFd ∉ s.polled := by
  have hpass := h.pass
  rw [hpc] at hpass
  constructor
  · by_contra hsrc
    exact hfresh (h.table.listeners ⟨hfd, hsrc⟩)
  · intro hmem
    exact hfresh (hpass.held _ (PollTable.ahead_self hslot.1) hslot.2.2 clientFd hmem)

theorem LoopInv.step {s s' : State} {a : Action} (h : LoopInv sk s) (hs : Step sk parse s a s') :
    LoopInv sk s' := by
  have haccepted := @h.accepted
  obtain ⟨htable, hclients, hpass⟩ := h
  cases hs with
  | quit hpc | failed hpc =>
      rw [hpc] at hpass
      exact ⟨htable, hclients, hpass⟩
  | polled _ =>
      exact ⟨htable.poll _, hclients.congr fun _ => PollTable.holds_poll, passInv_poll sk _⟩
  | interrupted | sent | sentRaw | consumed => exact ⟨htable, hclients, hpass⟩
  | skipped hpc _ hread =>
      rw [hpc] at hpass
      exact ⟨htable, hclients, hpass.skip hread⟩
  | ended hpc hend =>
      rw [hpc] at hpass
      exact ⟨htable, hclients, hpass.ended hend⟩
  | received hpc hslot | acceptFailed hpc hslot _ | read hpc hslot _ _ _ _
  | dropped hpc hslot _ _ _ _ =>
      rw [hpc] at hpass
      exact ⟨htable, hclients, hpass.service htable.distinct hslot.1⟩
  | pushed hpc | left hpc =>
      rw [hpc] at hpass
      exact ⟨htable, hclients, hpass⟩
  | accepted hpc hslot hfresh hfd hroom =>
      rw [hpc] at hpass
      obtain ⟨hclient, hpolled⟩ := haccepted hpc hslot hfresh hfd
      exact ⟨htable.register hfd hfresh hroom, hclients.register hfresh fun hl => hl.2 hclient,
        (hpass.service htable.distinct hslot.1).register hslot.1 hpolled hclient⟩
  | turnedAway hpc hslot _ _ _ =>
      rw [hpc] at hpass
      exact ⟨htable, hclients.turnAway _, hpass.service htable.distinct hslot.1⟩
  | hungUp hpc hslot =>
      have hnot := hslot.not_isListener
      rw [hpc] at hpass
      refine ⟨htable.remove hslot.1 hnot, hclients.remove htable.distinct hslot.1 hnot, ?_⟩
      show PassAt sk _ _ _ s.pc
      rw [hpc]
      exact hpass.remove htable hslot.1 hnot

theorem LoopInv.of_reachable {s : State} (h : (machine sk parse).Reachable s) : LoopInv sk s :=
  h.invariant (loopInv_start sk) fun hi hs => hi.step (step_cases hs)

/-! ## The length of a pass -/

/-- A step of the loop inside a pass. -/
def Action.InPass : Action → Prop
  | .skip | .endPass | .recvfrom _ _ | .push _ | .leave | .accept _ | .read _ _ | .hangup => True
  | _ => False

instance (a : Action) : Decidable a.InPass := by
  cases a <;> first | exact isTrue trivial | exact isFalse id

/-- A bound on the steps of the loop until the pass ends.  An `accept` makes the
table longer, but only while the index is on a listening socket. -/
def rank (t : PollTable) : Pc → Nat
  | .atPoll | .stopped => 0
  | .scanning i => 4 * (t.nfds - i) + 5 * (2 - i) + 1
  | .pushing next sites => 4 * (t.nfds - next) + 5 * (2 - next) + sites.length + 2

theorem length_sites_le (m : UdpMessage) : m.sites.length ≤ 2 := by
  cases m <;> simp [UdpMessage.sites]

theorem length_handleUdpRead_le (parse : List UInt8 → UdpMessage) (bytes : List UInt8)
    (token : Bool) : (handleUdpRead parse bytes token).length ≤ 2 := by
  rw [handleUdpRead]
  split
  next => simp
  next =>
    split
    next => simp
    next => exact length_sites_le _

/-- The listening sockets are in the first two entries. -/
theorem TableInv.listener_le_one {t : PollTable} (h : TableInv sk t) {i : Nat} (hi : i < t.nfds)
    (hl : sk.IsListener (t.fds i).fd) : i ≤ 1 := by
  by_contra hlt
  have hfd : ∀ j, j ≤ i → (t.fds j).fd = sk.udpSock ∨ (t.fds j).fd = sk.ipcSock := fun j hj =>
    (Sockets.isListener_iff.mp (h.order hj hi hl)).2
  have hne : ∀ j k, j < k → k ≤ i → (t.fds j).fd ≠ (t.fds k).fd := fun j k hjk hk heq => by
    have hsame := h.distinct j k (by omega) (by omega) heq
    omega
  have h01 := hne 0 1 (by omega) (by omega)
  have h02 := hne 0 2 (by omega) (by omega)
  have h12 := hne 1 2 (by omega) (by omega)
  have h0 := hfd 0 (by omega)
  have h1 := hfd 1 (by omega)
  have h2 := hfd 2 (by omega)
  omega

/-- Each step of the loop brings the end of the pass nearer. -/
theorem Step.rank_lt {s s' : State} {a : Action} (hi : LoopInv sk s) (hs : Step sk parse s a s')
    (ha : a.InPass) : rank s'.table s'.pc < rank s.table s.pc := by
  cases hs with
  | quit _ | polled _ | interrupted _ | failed _ | sent | sentRaw | consumed => exact ha.elim
  | skipped hpc hlt _ =>
      rw [hpc]
      simp only [rank]
      omega
  | ended hpc _ =>
      rw [hpc]
      exact Nat.succ_pos _
  | @received _ bytes token hpc hslot =>
      have hlt := hslot.1
      have hlen := length_handleUdpRead_le parse bytes token
      rw [hpc]
      simp only [rank]
      omega
  | pushed hpc =>
      rw [hpc]
      simp only [rank, List.length_cons]
      omega
  | left hpc =>
      rw [hpc]
      simp only [rank, List.length_nil]
      omega
  | acceptFailed hpc hslot _ | turnedAway hpc hslot _ _ _ | read hpc hslot _ _ _ _
  | dropped hpc hslot _ _ _ _ =>
      have hlt := hslot.1
      rw [hpc]
      simp only [rank]
      omega
  | accepted hpc hslot _ _ _ =>
      have hlt := hslot.1
      have hfirst := hi.table.listener_le_one hlt ⟨hi.table.nonneg ⟨_, hlt, rfl⟩, by
        rw [hslot.2.2]
        simp⟩
      rw [hpc]
      simp only [rank, PollTable.nfds_register]
      omega
  | hungUp hpc hslot =>
      have hlt := hslot.1
      simp only [hpc, rank, PollTable.remove]
      omega

/-- Only `poll` starts a pass. -/
theorem Step.rank_le {s s' : State} {a : Action} (hi : LoopInv sk s) (hs : Step sk parse s a s')
    (hpoll : ∀ revents, a ≠ .poll revents) : rank s'.table s'.pc ≤ rank s.table s.pc := by
  by_cases ha : a.InPass
  · exact Nat.le_of_lt (hs.rank_lt hi ha)
  · cases hs with
    | quit _ | failed _ => exact Nat.zero_le _
    | polled _ => exact absurd rfl (hpoll _)
    | interrupted _ | sent | sentRaw | consumed => exact Nat.le_refl _
    | _ => exact absurd trivial ha

/-- Every pass ends: until the next `poll`, the loop takes at most `rank` steps,
whatever the clients and the upload thread do in between. -/
theorem pass_terminates {s s' : State} {as : List Action} (hr : (machine sk parse).Reachable s)
    (hrun : (machine sk parse).runFrom s as = some s') (hpoll : ∀ revents, .poll revents ∉ as) :
    (as.filter (fun a => a.InPass)).length + rank s'.table s'.pc ≤ rank s.table s.pc := by
  induction as generalizing s with
  | nil =>
      rw [Machine.runFrom_nil, Option.some.injEq] at hrun
      subst hrun
      simp
  | cons a as ih =>
      obtain ⟨t, ha, hrest⟩ := Machine.runFrom_cons_eq_some.mp hrun
      have hi := LoopInv.of_reachable hr
      have hrank := ih (hr.step ha) hrest fun revents h => hpoll revents (.tail a h)
      by_cases hin : a.InPass
      · have hlt := (step_cases ha).rank_lt hi hin
        rw [List.filter_cons_of_pos (by simpa using hin), List.length_cons]
        omega
      · have hle := (step_cases ha).rank_le hi fun revents h => hpoll revents (h ▸ .head as)
        rw [List.filter_cons_of_neg (by simpa using hin)]
        omega

/-! ## The table and the passes -/

/-- A descriptor is closed when `read` on it returned `0` or failed, and when it
was accepted while the table was full. -/
theorem Step.closed {s s' : State} {a : Action} (hs : Step sk parse s a s') :
    s'.closed = s.closed ∨ ∃ fd, s'.closed = s.closed ++ [fd] ∧
      ((a = .hangup ∧ ∃ i, s.pc = .scanning i ∧ (s.table.fds i).fd = fd) ∨
        (a = .accept fd ∧ maxPollFds ≤ s.table.nfds)) := by
  cases hs with
  | turnedAway _ _ _ _ hfull => exact .inr ⟨_, rfl, .inr ⟨rfl, hfull⟩⟩
  | hungUp hpc _ => exact .inr ⟨_, rfl, .inl ⟨rfl, _, hpc, rfl⟩⟩
  | _ => exact .inl rfl

/-- In every reachable state the table holds distinct descriptors, the listening
sockets and the clients that were accepted and not closed, and after each pass
every descriptor that `poll` reported was serviced once.  The counts say that a
descriptor is closed at most once for each time it was accepted. -/
theorem poll_table_invariant {s : State} (hr : (machine sk parse).Reachable s) :
    s.table.nfds ≤ 1024 ∧
      (∀ j k, j < s.table.nfds → k < s.table.nfds →
        (s.table.fds j).fd = (s.table.fds k).fd → j = k) ∧
      (∀ j, j < s.table.nfds → 0 ≤ (s.table.fds j).fd) ∧
      (∀ fd, (∃ j, j < s.table.nfds ∧ (s.table.fds j).fd = fd) ↔
        sk.IsListener fd ∨ s.closed.count fd < s.accepted.count fd) ∧
      (∀ j, s.table.nfds ≤ j → (s.table.fds j).fd = -1) ∧
      (∀ fd, s.closed.count fd ≤ s.accepted.count fd ∧
        s.accepted.count fd ≤ s.closed.count fd + 1) ∧
      (∀ a s', (machine sk parse).step s a = some s' →
        s'.closed = s.closed ∨ ∃ fd, s'.closed = s.closed ++ [fd] ∧
          ((a = .hangup ∧ ∃ i, s.pc = .scanning i ∧ (s.table.fds i).fd = fd) ∨
            (a = .accept fd ∧ 1024 ≤ s.table.nfds))) ∧
      (s.pc = .atPoll → ∀ fd ∈ s.polled, s.serviced.count fd = 1) := by
  obtain ⟨htable, hclients, hpass⟩ := LoopInv.of_reachable hr
  refine ⟨htable.nfds_le, htable.distinct, fun j hj => htable.nonneg ⟨j, hj, rfl⟩, fun fd => ?_,
    htable.freeAbove, fun fd => ?_, fun a s' hs => (step_cases hs).closed, fun hpc => ?_⟩
  · have hcount := hclients fd
    constructor
    · intro hheld
      by_cases hl : sk.IsListener fd
      · exact .inl hl
      · rw [if_pos ⟨hheld, hl⟩] at hcount
        exact .inr (by omega)
    · rintro (hl | hlt)
      · exact htable.listeners hl
      · by_contra hnot
        rw [if_neg fun h => hnot h.1] at hcount
        omega
  · have hcount := hclients fd
    split at hcount <;> omega
  · rw [hpc] at hpass
    exact hpass

/-- A client that is accepted in one pass and removed in the next. -/
theorem poll_table_invariant_hangup :
    ∃ s, (machine .usual fun _ => .unknown).run [.poll (onlyAt 1), .skip, .accept 7, .skip,
        .endPass, .poll (onlyAt 2), .skip, .skip, .hangup, .endPass] = some s ∧
      s.polled = [7] ∧ s.serviced.count 7 = 1 := by
  have hrun : ((machine .usual fun _ => .unknown).run [.poll (onlyAt 1), .skip, .accept 7, .skip,
      .endPass, .poll (onlyAt 2), .skip, .skip, .hangup, .endPass]).map
        (fun s => (s.pc, s.polled)) = some (.atPoll, [7]) := by decide
  obtain ⟨s, hs, heq⟩ := Option.map_eq_some_iff.mp hrun
  obtain ⟨hpc, hpolled⟩ := Prod.mk.inj heq
  obtain ⟨-, -, -, -, -, -, -, honce⟩ := poll_table_invariant ⟨_, hs⟩
  exact ⟨s, hs, hpolled, honce hpc 7 (by rw [hpolled]; simp)⟩

end IotEdge.EventLoop
