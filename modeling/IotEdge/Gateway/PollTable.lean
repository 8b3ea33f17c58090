import Mathlib.Logic.Function.Basic
import Mathlib.Data.List.Basic

/-!
# The poll table

`start_event_loop` keeps an array of `struct pollfd` and the number `nfds` of
entries in use.  Three things happen to it: `poll` writes the `revents` of the
entries in use, a new client is appended, and a client that has gone is removed
by moving the last entry into its place.

Appending sets `fd` and `events` and does not touch `revents`, so the new entry
has the `revents` that were last in the slot.  Removing moves a whole entry, and
resets only the `fd` of the slot it leaves.

`Holds` says which descriptors are in use, and `Ahead` which entries a pass over
the table has still to come to.  Each operation has one lemma about each.
-/

namespace IotEdge

/-- `POLLIN`. -/
def pollIn : UInt16 := 1

/-- `struct pollfd`. -/
structure PollFd where
  fd : Int
  events : UInt16
  revents : UInt16
deriving DecidableEq

/-- `revents & POLLIN`. -/
def PollFd.readable (p : PollFd) : Bool := p.revents &&& pollIn ≠ 0

/-- `MAX_POLL_FDS`. -/
abbrev maxPollFds : Nat := 1024

/-- `fds` and `nfds`.  Only the slots below `maxPollFds` exist. -/
structure PollTable where
  fds : Nat → PollFd
  nfds : Nat

namespace PollTable

/-- The table after the first loop. -/
def empty : PollTable := ⟨fun _ => ⟨-1, 0, 0⟩, 0⟩

/-- `fds[nfds].fd = fd; fds[nfds].events = POLLIN; nfds++`. -/
def register (t : PollTable) (fd : Int) : PollTable where
  fds := Function.update t.fds t.nfds { t.fds t.nfds with fd := fd, events := pollIn }
  nfds := t.nfds + 1

/-- `fds[i] = fds[nfds - 1]; fds[nfds - 1].fd = -1; nfds--`. -/
def remove (t : PollTable) (i : Nat) : PollTable :=
  let moved := Function.update t.fds i (t.fds (t.nfds - 1))
  { fds := Function.update moved (t.nfds - 1) { moved (t.nfds - 1) with fd := -1 }
    nfds := t.nfds - 1 }

/-- What `poll` writes: the `revents` of the entries in use. -/
def poll (t : PollTable) (revents : Nat → UInt16) : PollTable :=
  { t with fds := fun j =>
      if j < t.nfds then { t.fds j with revents := revents j } else t.fds j }

/-- The descriptors `poll` reported `POLLIN` for. -/
def ready (t : PollTable) : List Int :=
  ((List.range t.nfds).filter fun j => (t.fds j).readable).map fun j => (t.fds j).fd

/-- A descriptor is in an entry in use. -/
def Holds (t : PollTable) (fd : Int) : Prop := ∃ j < t.nfds, (t.fds j).fd = fd

instance (t : PollTable) (fd : Int) : Decidable (t.Holds fd) :=
  inferInstanceAs (Decidable (∃ j < t.nfds, (t.fds j).fd = fd))

/-- `e` is an entry in use, at `i` or behind. -/
def Ahead (t : PollTable) (i : Nat) (e : PollFd) : Prop := ∃ j, i ≤ j ∧ j < t.nfds ∧ t.fds j = e

/-- No descriptor is in two entries in use. -/
def Distinct (t : PollTable) : Prop :=
  ∀ j k, j < t.nfds → k < t.nfds → (t.fds j).fd = (t.fds k).fd → j = k

/-- The slots that are not in use hold `-1`. -/
def FreeAbove (t : PollTable) : Prop := ∀ j, t.nfds ≤ j → (t.fds j).fd = -1

/-! ## Initial table -/

@[simp] theorem nfds_empty : empty.nfds = 0 := rfl

theorem not_holds_empty (fd : Int) : ¬ empty.Holds fd := by
  rintro ⟨j, hj, -⟩
  exact Nat.not_lt_zero j hj

theorem distinct_empty : empty.Distinct := fun _ _ hj => absurd hj (Nat.not_lt_zero _)

theorem freeAbove_empty : empty.FreeAbove := fun _ _ => rfl

/-! ## The entries ahead of an index -/

theorem ahead_self {t : PollTable} {i : Nat} (hi : i < t.nfds) : t.Ahead i (t.fds i) :=
  ⟨i, Nat.le_refl i, hi, rfl⟩

theorem Ahead.of_succ {t : PollTable} {i : Nat} {e : PollFd} (h : t.Ahead (i + 1) e) :
    t.Ahead i e := by
  obtain ⟨j, hij, hj⟩ := h
  exact ⟨j, Nat.le_of_succ_le hij, hj⟩

theorem Ahead.eq_or_succ {t : PollTable} {i : Nat} {e : PollFd} (h : t.Ahead i e) :
    e = t.fds i ∨ t.Ahead (i + 1) e := by
  obtain ⟨j, hij, hj, he⟩ := h
  rcases Nat.eq_or_lt_of_le hij with heq | hlt
  · subst heq
    exact .inl he.symm
  · exact .inr ⟨j, hlt, hj, he⟩

theorem Ahead.holds {t : PollTable} {i : Nat} {e : PollFd} (h : t.Ahead i e) : t.Holds e.fd := by
  obtain ⟨j, -, hj, rfl⟩ := h
  exact ⟨j, hj, rfl⟩

theorem not_ahead_of_le {t : PollTable} {i : Nat} (hi : t.nfds ≤ i) (e : PollFd) :
    ¬ t.Ahead i e := by
  rintro ⟨j, hij, hj, -⟩
  exact absurd (Nat.le_trans hi hij) (Nat.not_le_of_lt hj)

/-- The entry at the index is the only one with its descriptor. -/
theorem Distinct.ne_of_ahead_succ {t : PollTable} (h : t.Distinct) {i : Nat} (hi : i < t.nfds)
    {e : PollFd} (he : t.Ahead (i + 1) e) : e.fd ≠ (t.fds i).fd := by
  obtain ⟨j, hij, hj, rfl⟩ := he
  intro heq
  exact absurd (h j i hj hi heq) (Nat.ne_of_gt hij)

/-! ## Appending -/

@[simp] theorem nfds_register (t : PollTable) (fd : Int) : (t.register fd).nfds = t.nfds + 1 := rfl

theorem fds_register_of_lt {t : PollTable} {fd : Int} {j : Nat} (h : j < t.nfds) :
    (t.register fd).fds j = t.fds j :=
  Function.update_of_ne (Nat.ne_of_lt h) _ _

@[simp] theorem fd_register_self (t : PollTable) (fd : Int) :
    ((t.register fd).fds t.nfds).fd = fd := by
  simp [register]

/-- The `revents` of a new entry are the old ones of its slot. -/
@[simp] theorem readable_register_self (t : PollTable) (fd : Int) :
    ((t.register fd).fds t.nfds).readable = (t.fds t.nfds).readable := by
  simp [register, PollFd.readable]

theorem holds_register {t : PollTable} {fd fd' : Int} :
    (t.register fd).Holds fd' ↔ t.Holds fd' ∨ fd' = fd := by
  constructor
  · rintro ⟨j, hj, hfd⟩
    rcases Nat.lt_succ_iff_lt_or_eq.mp hj with hlt | heq
    · exact .inl ⟨j, hlt, fds_register_of_lt hlt ▸ hfd⟩
    · subst heq
      exact .inr (hfd.symm.trans (fd_register_self t fd))
  · rintro (⟨j, hj, hfd⟩ | heq)
    · exact ⟨j, Nat.lt_succ_of_lt hj, (fds_register_of_lt hj).symm ▸ hfd⟩
    · exact ⟨t.nfds, Nat.lt_succ_self _, (fd_register_self t fd).trans heq.symm⟩

/-- The entry that is appended comes last. -/
theorem ahead_register {t : PollTable} {i : Nat} (hi : i ≤ t.nfds) {fd : Int} {e : PollFd} :
    (t.register fd).Ahead i e ↔ t.Ahead i e ∨ e = (t.register fd).fds t.nfds := by
  constructor
  · rintro ⟨j, hij, hj, he⟩
    rcases Nat.lt_succ_iff_lt_or_eq.mp hj with hlt | heq
    · exact .inl ⟨j, hij, hlt, fds_register_of_lt hlt ▸ he⟩
    · subst heq
      exact .inr he.symm
  · rintro (⟨j, hij, hj, he⟩ | he)
    · exact ⟨j, hij, Nat.lt_succ_of_lt hj, (fds_register_of_lt hj).trans he⟩
    · exact ⟨t.nfds, hi, Nat.lt_succ_self _, he.symm⟩

theorem Distinct.register {t : PollTable} (h : t.Distinct) {fd : Int} (hfd : ¬ t.Holds fd) :
    (t.register fd).Distinct := by
  intro j k hj hk heq
  rcases Nat.lt_succ_iff_lt_or_eq.mp hj with hj | hj
  · rcases Nat.lt_succ_iff_lt_or_eq.mp hk with hk | hk
    · rw [fds_register_of_lt hj, fds_register_of_lt hk] at heq
      exact h j k hj hk heq
    · subst hk
      rw [fds_register_of_lt hj, fd_register_self] at heq
      exact absurd ⟨j, hj, heq⟩ hfd
  · rcases Nat.lt_succ_iff_lt_or_eq.mp hk with hk | hk
    · subst hj
      rw [fds_register_of_lt hk, fd_register_self] at heq
      exact absurd ⟨k, hk, heq.symm⟩ hfd
    · exact hj.trans hk.symm

theorem FreeAbove.register {t : PollTable} (h : t.FreeAbove) (fd : Int) :
    (t.register fd).FreeAbove := by
  intro j hj
  have hlt : t.nfds < j := hj
  show (Function.update t.fds t.nfds _ j).fd = -1
  rw [Function.update_of_ne (Nat.ne_of_gt hlt)]
  exact h j (Nat.le_of_lt hlt)

/-! ## Removing -/

/-- Where the entry `j` is before the entry `i` is removed: the last one takes
the place of `i`. -/
def origin (t : PollTable) (i j : Nat) : Nat := if j = i then t.nfds - 1 else j

theorem fds_remove {t : PollTable} {i j : Nat} (h : j < t.nfds - 1) :
    (t.remove i).fds j = t.fds (t.origin i j) := by
  simp only [remove, origin]
  rw [Function.update_of_ne (Nat.ne_of_lt h), Function.update_apply]
  split <;> rfl

theorem origin_lt {t : PollTable} {i j : Nat} (h : j < t.nfds - 1) : t.origin i j < t.nfds := by
  rw [origin]
  split <;> omega

theorem origin_ne {t : PollTable} {i j : Nat} (h : j < t.nfds - 1) : t.origin i j ≠ i := by
  rw [origin]
  split <;> omega

theorem origin_inj {t : PollTable} {i j k : Nat} (hj : j < t.nfds - 1) (hk : k < t.nfds - 1)
    (h : t.origin i j = t.origin i k) : j = k := by
  simp only [origin] at h
  split at h <;> split at h <;> omega

/-- What is not before `i` was not before `i`. -/
theorem le_origin {t : PollTable} {i j : Nat} (hij : i ≤ j) (h : j < t.nfds - 1) :
    i ≤ t.origin i j := by
  rw [origin]
  split <;> omega

/-- Every entry but `i` is still there, and stays on its side of `i`. -/
theorem exists_origin {t : PollTable} {i k : Nat} (hi : i < t.nfds) (hk : k < t.nfds)
    (hne : k ≠ i) : ∃ j < t.nfds - 1, t.origin i j = k ∧ (i ≤ k → i ≤ j) := by
  simp only [origin]
  by_cases hlast : k = t.nfds - 1
  · exact ⟨i, by omega, by rw [if_pos rfl, hlast], fun _ => Nat.le_refl i⟩
  · exact ⟨k, by omega, if_neg hne, id⟩

theorem holds_remove {t : PollTable} (h : t.Distinct) {i : Nat} (hi : i < t.nfds) {fd : Int} :
    (t.remove i).Holds fd ↔ t.Holds fd ∧ fd ≠ (t.fds i).fd := by
  constructor
  · rintro ⟨j, hj, hfd⟩
    rw [fds_remove hj] at hfd
    exact ⟨⟨t.origin i j, origin_lt hj, hfd⟩, fun h' =>
      origin_ne hj (h _ _ (origin_lt hj) hi (hfd.trans h'))⟩
  · rintro ⟨⟨k, hk, hfd⟩, hne⟩
    have hki : k ≠ i := by
      rintro rfl
      exact hne hfd.symm
    obtain ⟨j, hj, horigin, -⟩ := exists_origin hi hk hki
    exact ⟨j, hj, by rw [fds_remove hj, horigin, hfd]⟩

/-- Removing the entry at the index leaves the others that are ahead. -/
theorem ahead_remove {t : PollTable} {i : Nat} (hi : i < t.nfds) {e : PollFd} :
    (t.remove i).Ahead i e ↔ t.Ahead (i + 1) e := by
  constructor
  · rintro ⟨j, hij, hj, he⟩
    rw [fds_remove hj] at he
    have hne := origin_ne (i := i) hj
    exact ⟨_, Nat.lt_of_le_of_ne (le_origin hij hj) hne.symm, origin_lt hj, he⟩
  · rintro ⟨k, hik, hk, he⟩
    obtain ⟨j, hj, horigin, hij⟩ := exists_origin hi hk (Nat.ne_of_gt hik)
    exact ⟨j, hij (Nat.le_of_lt hik), hj, by rw [fds_remove hj, horigin, he]⟩

theorem Distinct.remove {t : PollTable} (h : t.Distinct) (i : Nat) : (t.remove i).Distinct := by
  intro j k hj hk heq
  rw [fds_remove hj, fds_remove hk] at heq
  exact origin_inj hj hk (h _ _ (origin_lt hj) (origin_lt hk) heq)

theorem FreeAbove.remove {t : PollTable} (h : t.FreeAbove) {i : Nat} (hi : i < t.nfds) :
    (t.remove i).FreeAbove := by
  intro j hj
  have hj' : t.nfds - 1 ≤ j := hj
  simp only [PollTable.remove]
  by_cases hlast : j = t.nfds - 1
  · subst hlast
    rw [Function.update_self]
  · rw [Function.update_of_ne hlast, Function.update_of_ne (by omega)]
    exact h j (by omega)

/-! ## Polling -/

@[simp] theorem nfds_poll (t : PollTable) (revents : Nat → UInt16) :
    (t.poll revents).nfds = t.nfds := rfl

@[simp] theorem fd_poll (t : PollTable) (revents : Nat → UInt16) (j : Nat) :
    ((t.poll revents).fds j).fd = (t.fds j).fd := by
  simp only [poll]
  split <;> rfl

theorem holds_poll {t : PollTable} {revents : Nat → UInt16} {fd : Int} :
    (t.poll revents).Holds fd ↔ t.Holds fd := by
  simp [Holds]

theorem Distinct.poll {t : PollTable} (h : t.Distinct) (revents : Nat → UInt16) :
    (t.poll revents).Distinct := by
  intro j k hj hk heq
  rw [fd_poll, fd_poll] at heq
  exact h j k hj hk heq

theorem FreeAbove.poll {t : PollTable} (h : t.FreeAbove) (revents : Nat → UInt16) :
    (t.poll revents).FreeAbove := by
  intro j hj
  rw [fd_poll]
  exact h j hj

theorem mem_ready {t : PollTable} {fd : Int} :
    fd ∈ t.ready ↔ ∃ e, t.Ahead 0 e ∧ e.fd = fd ∧ e.readable = true := by
  simp only [ready, List.mem_map, List.mem_filter, List.mem_range]
  constructor
  · rintro ⟨j, ⟨hj, hread⟩, hfd⟩
    exact ⟨_, ⟨j, Nat.zero_le j, hj, rfl⟩, hfd, hread⟩
  · rintro ⟨_, ⟨j, -, hj, rfl⟩, hfd, hread⟩
    exact ⟨j, ⟨hj, hread⟩, hfd⟩

end PollTable

end IotEdge
