import IotEdge.Gateway.EventLoop

/-!
# Whole records

`start_event_loop` takes the result of every `read` that is positive for a whole
record.  A stream socket may return less, and then a record is pushed whose bytes
have not all been received, and every later record is cut at the wrong place.

`ipc_framing_iff` is the exact condition for one client: the records pushed for
it are the ones it wrote just when each of its `read`s returns all 16 bytes.  A `read`
that finds the ring full may return less, but then the next record that is pushed has to
begin where one was written.
-/

namespace IotEdge.EventLoop

variable {sk : Sockets} {parse : List UInt8 → UdpMessage}

/-- A `read` on `fd` returns a whole record, from its first byte on.  Nothing is asked of it
once the client has written anything but records, or while the ring is full. -/
def WholeRead (fd : Int) (s : State) : Action → Prop
  | .read n _ => ∀ i, s.pc = .scanning i → s.fd i = fd → (s.conns fd).written.isSome →
      s.store.queue.occupancy ≠ 1023 → n = 16 ∧ 16 ∣ (s.conns fd).received
  | _ => True

/-! ## Every step -/

theorem Step.valid {s s' : State} {a : Action} (h : ∀ fd, (s.conns fd).Valid)
    (hs : Step sk parse s a s') : ∀ fd, (s'.conns fd).Valid := by
  have hupdate {fd : Int} {c : Conn} (hc : c.Valid) :
      ∀ fd', (Function.update s.conns fd c fd').Valid :=
    (Function.forall_update_iff s.conns fun _ c => c.Valid).mpr ⟨hc, fun fd' _ => h fd'⟩
  cases hs with
  | accepted _ _ _ _ _ => exact hupdate Conn.valid_fresh
  | read _ _ hpos hn havail _ | dropped _ _ hpos hn havail _ =>
      exact hupdate ((h _).receive hpos hn havail _)
  | sent => exact hupdate ((h _).send _ _)
  | sentRaw => exact hupdate ((h _).sendRaw _)
  | _ => exact h

theorem valid_of_reachable {s : State} (h : (machine sk parse).Reachable s) :
    ∀ fd, (s.conns fd).Valid :=
  h.invariant (I := fun s => ∀ fd, (s.conns fd).Valid) (fun _ => Conn.valid_fresh)
    fun hi hs => (step_cases hs).valid hi

/-- The connection of one client changes, to one whose records are right. -/
theorem framed_update {conns : Int → Conn} {fd fd' : Int} {c : Conn} (h : (conns fd).Framed)
    (hc : fd = fd' → c.Framed) : (Function.update conns fd' c fd).Framed := by
  rw [Function.update_apply]
  split
  next heq => exact hc heq
  next => exact h

/-- A step keeps the records of a client just when it meets `WholeRead`. -/
theorem Step.framed_iff {s s' : State} {a : Action} {fd : Int} (hi : ∀ fd, (s.conns fd).Valid)
    (h : (s.conns fd).Framed) (hs : Step sk parse s a s') :
    (s'.conns fd).Framed ↔ WholeRead fd s a := by
  cases hs with
  | accepted _ _ _ _ _ => exact iff_of_true (framed_update h fun _ => Conn.framed_fresh) trivial
  | sent => exact iff_of_true (framed_update h fun heq => (heq ▸ h).send (hi _) _ _) trivial
  | sentRaw => exact iff_of_true (framed_update h fun heq => (heq ▸ h).sendRaw _) trivial
  | @read i n stack store hpc _ _ hn havail hpush =>
      by_cases heq : fd = s.fd i
      · subst heq
        have hroom := Store.occupancy_ne_of_push hpush
        simp only [Function.update_self]
        rw [Conn.framed_receive (hi _) h hn havail stack]
        constructor
        · intro hwhole _ _ _ hsome _
          exact hwhole hsome
        · intro hwhole hsome
          exact hwhole i hpc rfl hsome hroom
      · refine iff_of_true (framed_update h fun h' => absurd h' heq) fun j hj hfd => ?_
        rw [hpc, Pc.scanning.injEq] at hj
        exact absurd (hj ▸ hfd).symm heq
  | dropped _ _ _ _ _ hpush =>
      have hfull := Store.push_eq_none_iff.mp hpush
      exact iff_of_true (framed_update h fun heq => (heq ▸ h).receive_none _)
        fun _ _ _ _ hroom => absurd hfull hroom
  | _ => exact iff_of_true h trivial

/-! ## Runs -/

/-- Along any run, the records pushed for a client are ones it wrote, all of whose bytes
were received, and they are all of these while the ring has room, just when each `read`
on it that finds room returns a whole record. -/
theorem ipc_framing_iff {as : List Action} {s : State} (fd : Int)
    (hrun : (machine sk parse).run as = some s) :
    (machine sk parse).Always as (fun s => (s.conns fd).Framed) ↔
      (machine sk parse).EachStep as (WholeRead fd) := by
  refine Machine.always_iff_eachStep Conn.framed_fresh ?_ hrun
  intro s a s' hr hframed hs
  exact (step_cases hs).framed_iff (valid_of_reachable hr) hframed

/-- The first eight bytes of a record are taken for a record. -/
theorem ipc_framing_iff_oneRecord : ¬ (machine .usual fun _ => .unknown).Always
    (oneRecord ++ [.read 8 []]) (fun s => (s.conns 7).Framed) := by
  have hbefore : ((machine .usual fun _ => .unknown).run oneRecord).map (fun s =>
      (s.pc, s.fd 2, (s.conns 7).written.isSome, s.store.queue.occupancy)) =
        some (.scanning 2, 7, true, 0) := by decide
  obtain ⟨s', hs'⟩ := Option.isSome_iff_exists.mp
    (show ((machine .usual fun _ => .unknown).run (oneRecord ++ [.read 8 []])).isSome by decide)
  obtain ⟨s, hs, heq⟩ := Option.map_eq_some_iff.mp hbefore
  obtain ⟨hpc, hfd, hsome, hocc⟩ : s.pc = .scanning 2 ∧ s.fd 2 = 7 ∧
      (s.conns 7).written.isSome = true ∧ s.store.queue.occupancy = 0 := by
    simpa only [Prod.mk.injEq] using heq
  intro h
  have hwhole := (ipc_framing_iff 7 hs').mp h oneRecord (.read 8 []) (List.prefix_refl _) s hs 2
    hpc hfd hsome (by omega)
  exact absurd hwhole.1 (by decide)

/-- A record is pushed before all of its bytes were received. -/
theorem partial_record_enqueued :
    ¬ ∀ s, (machine .usual fun _ => .unknown).Reachable s → ∀ fd, (s.conns fd).Framed := by
  intro h
  have hrun : ((machine .usual fun _ => .unknown).run (oneRecord ++ [.read 8 []])).map (fun s =>
      ((s.conns 7).written, (s.conns 7).refused, (s.conns 7).received,
        (s.conns 7).enqueued.length)) =
        some (some [⟨16790, ⟨0x4035800000000000⟩⟩], false, 8, 1) := by decide
  obtain ⟨s, hs, heq⟩ := Option.map_eq_some_iff.mp hrun
  obtain ⟨hwritten, hroom, hreceived, hlen⟩ : (s.conns 7).written =
      some [⟨16790, ⟨0x4035800000000000⟩⟩] ∧ (s.conns 7).refused = false ∧
      (s.conns 7).received = 8 ∧ (s.conns 7).enqueued.length = 1 := by
    simpa only [Prod.mk.injEq] using heq
  have hframed := congrArg List.length ((h s ⟨_, hs⟩ 7).all _ hwritten hroom)
  rw [hreceived, hlen] at hframed
  exact absurd hframed (by decide)

end IotEdge.EventLoop
