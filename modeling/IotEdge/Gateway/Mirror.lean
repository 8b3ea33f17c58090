import IotEdge.Gateway.EventLoop

/-!
# The blackboard and the ring

The worker processes read the blackboard, so it should show what was pushed last
for each sensor.  The push sites of `handle_udp_read` update it after the push.
The push site for local clients in `start_event_loop` does not.

`mirrors_iff` is the exact condition: the blackboard shows the last values just
when each record of a local client that is pushed brings nothing new for it.
-/

namespace IotEdge

/-- The blackboard shows the last value of every sensor that has a place on it. -/
def Store.Mirrors (s : Store) : Prop :=
  ∀ sensorId, sensorId ≠ 0 → s.board.HasPlace sensorId →
    ∀ data, s.lastEnqueued sensorId = some data → s.board.readSharedSensorData sensorId = data

/-- The blackboard shows `data` already, or cannot show it. -/
def Store.Shows (s : Store) (data : IPCData) : Prop :=
  data.sensorId ≠ 0 → s.board.HasPlace data.sensorId →
    s.board.readSharedSensorData data.sensorId = data.sensorData

namespace Store

theorem mirrors_init : init.Mirrors := by
  intro sensorId _ _ data h
  cases h

/-- A push alone keeps the stores in step just when the blackboard shows the
record already. -/
theorem mirrors_push {s s' : Store} {data : IPCData} (h : s.Mirrors)
    (hpush : s.push data = some s') : s'.Mirrors ↔ s.Shows data := by
  have hboard := (push_eq_some hpush).1
  have hlast := lastEnqueued_push hpush
  constructor
  · intro h' hne hplace
    rw [← hboard] at hplace ⊢
    exact h' data.sensorId hne hplace data.sensorData (by rw [hlast, if_pos rfl])
  · intro hshows sensorId hne hplace value hvalue
    rw [hboard] at hplace ⊢
    rw [hlast] at hvalue
    by_cases heq : sensorId = data.sensorId
    · rw [if_pos heq, Option.some.injEq] at hvalue
      subst heq hvalue
      exact hshows hne hplace
    · rw [if_neg heq] at hvalue
      exact h sensorId hne hplace value hvalue

/-- The push sites of `handle_udp_read` keep the stores in step. -/
theorem Mirrors.pushUdp {s : Store} (h : s.Mirrors) (site : PushSite) (now : Int64) :
    (s.pushUdp site now).Mirrors := by
  rw [Store.pushUdp]
  split
  next s' hpush =>
    obtain ⟨hboard, -⟩ := push_eq_some hpush
    have hlast := lastEnqueued_push hpush
    intro sensorId hne hplace data hdata
    have hplace' : s.board.HasPlace sensorId := hboard ▸ Blackboard.hasPlace_of_update hplace
    have hdata' : s'.lastEnqueued sensorId = some data := hdata
    rw [hlast] at hdata'
    by_cases heq : sensorId = site.record.sensorId
    · rw [if_pos heq, Option.some.injEq] at hdata'
      subst heq hdata'
      exact Blackboard.read_update_self (hboard ▸ hplace') _ _
    · rw [if_neg heq] at hdata'
      refine (Blackboard.read_update_of_ne heq hne _ _).trans ?_
      rw [hboard]
      exact h sensorId hne hplace' data hdata'
  next => exact h

end Store

namespace EventLoop

variable {sk : Sockets} {parse : List UInt8 → UdpMessage}

/-- A record of a local client is refused, or the blackboard shows it already. -/
def ShownRead (s : State) : Action → Prop
  | .read n stack => ∀ i, s.pc = .scanning i → s.store.queue.occupancy ≠ 1023 →
      s.store.Shows ((s.conns (s.fd i)).readData n stack)
  | _ => True

/-- A step keeps the stores in step just when it meets `ShownRead`. -/
theorem Step.shownRead_iff {s s' : State} {a : Action} (h : s.store.Mirrors)
    (hs : Step sk parse s a s') : s'.store.Mirrors ↔ ShownRead s a := by
  cases hs with
  | pushed _ => exact iff_of_true (h.pushUdp _ _) trivial
  | read hpc _ _ _ _ hpush =>
      have hroom := Store.occupancy_ne_of_push hpush
      refine (Store.mirrors_push h hpush).trans ⟨fun hshows j hj _ => ?_, fun hread => ?_⟩
      · rw [hpc, Pc.scanning.injEq] at hj
        exact hj ▸ hshows
      · exact hread _ hpc hroom
  | dropped _ _ _ _ _ hpush =>
      have hfull := Store.push_eq_none_iff.mp hpush
      exact iff_of_true h fun _ _ hroom => absurd hfull hroom
  | _ => exact iff_of_true h trivial

/-- Along any run, the blackboard shows the last value that was pushed for every
sensor just when every record pushed for a local client was shown already. -/
theorem mirrors_iff {as : List Action} {s : State} (hrun : (machine sk parse).run as = some s) :
    (machine sk parse).Always as (fun s => s.store.Mirrors) ↔
      (machine sk parse).EachStep as ShownRead :=
  Machine.always_iff_eachStep Store.mirrors_init
    (fun _ hm hs => (step_cases hs).shownRead_iff hm) hrun

/-- A record of a local client is pushed and not shown. -/
theorem mirrors_iff_oneRecord : ¬ (machine .usual fun _ => .unknown).Always
    (oneRecord ++ [.read 16 []]) (fun s => s.store.Mirrors) := by
  have hbefore : ((machine .usual fun _ => .unknown).run oneRecord).map (fun s =>
      (s.pc, s.store.queue.occupancy, (s.conns (s.fd 2)).readData 16 [],
        decide (s.store.board.HasPlace 16790), s.store.board.readSharedSensorData 16790)) =
      some (.scanning 2, 0, ⟨16790, ⟨0x4035800000000000⟩⟩, true, invalidData) := by decide
  obtain ⟨s', hs'⟩ := Option.isSome_iff_exists.mp
    (show ((machine .usual fun _ => .unknown).run (oneRecord ++ [.read 16 []])).isSome by decide)
  obtain ⟨s, hs, heq⟩ := Option.map_eq_some_iff.mp hbefore
  obtain ⟨hpc, hocc, hdata, hplace, hread⟩ : s.pc = .scanning 2 ∧ s.store.queue.occupancy = 0 ∧
      (s.conns (s.fd 2)).readData 16 [] = ⟨16790, ⟨0x4035800000000000⟩⟩ ∧
      s.store.board.HasPlace 16790 ∧
      s.store.board.readSharedSensorData 16790 = invalidData := by
    simpa only [Prod.mk.injEq, decide_eq_true_eq] using heq
  intro h
  have hshows := (mirrors_iff hs').mp h oneRecord (.read 16 []) (List.prefix_refl _) s hs 2 hpc
    (by omega)
  rw [hdata] at hshows
  exact absurd (hread.symm.trans (hshows (by decide) hplace)) (by decide)

/-- After a record of a local client the blackboard still shows nothing. -/
theorem ipc_record_not_shown :
    ¬ ∀ s, (machine .usual fun _ => .unknown).Reachable s → s.store.Mirrors := by
  intro h
  have hrun : ((machine .usual fun _ => .unknown).run (oneRecord ++ [.read 16 []])).map (fun s =>
      (decide (s.store.board.HasPlace 16790), s.store.lastEnqueued 16790,
        s.store.board.readSharedSensorData 16790)) =
      some (true, some ⟨0x4035800000000000⟩, invalidData) := by decide
  obtain ⟨s, hs, heq⟩ := Option.map_eq_some_iff.mp hrun
  obtain ⟨hplace, hlast, hread⟩ : s.store.board.HasPlace 16790 ∧
      s.store.lastEnqueued 16790 = some ⟨0x4035800000000000⟩ ∧
      s.store.board.readSharedSensorData 16790 = invalidData := by
    simpa only [Prod.mk.injEq, decide_eq_true_eq] using heq
  have hshown := h s ⟨_, hs⟩ 16790 (by decide) hplace _ hlast
  exact absurd (hread.symm.trans hshown) (by decide)

end EventLoop

end IotEdge
