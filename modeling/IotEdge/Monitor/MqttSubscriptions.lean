import IotEdge.Monitor.MqttConnection

/-!
# Subscriptions

`subscribeTopics` makes a subscription for each of the four handlers and connects a slot to
its messages.  Nothing ever disconnects a slot: every connection to the broker adds new ones.
That a message is still handled once is due to the table of the active subscriptions, which
is empty whenever a session begins.

`Subscriptions.Consistent` and `Subscriptions.Complete` say what the table is to be like, and
`subscribeTopics_subscribed` that `subscribeTopics` makes it so.
-/

namespace IotEdge.Mqtt

open Monitor

/-! ## Subscriptions -/

namespace Subscriptions

/-- The slot of the handler is connected to an active subscription. -/
def Serves (u : Subscriptions) (h : Handler) : Prop :=
  ∃ x ∈ u.active, (x.2, h) ∈ u.slots

/-- The active subscriptions have different filters, and a slot is connected to one of them at
most, to that with its own filter. -/
structure Consistent (u : Subscriptions) (config : EmbskyConfig) : Prop where
  filters : (u.active.map Prod.fst).Nodup
  objects : (u.active.map Prod.snd).Nodup
  slots : u.slots.Nodup
  active_lt : ∀ x ∈ u.active, x.2 < u.created
  slots_lt : ∀ x ∈ u.slots, x.1 < u.created
  filter : ∀ x ∈ u.active, ∀ h, (x.2, h) ∈ u.slots → x.1 = config.topicFilter h

/-- Every handler with a valid filter has its slot connected. -/
def Complete (u : Subscriptions) (config : EmbskyConfig) : Prop :=
  ∀ h, topicFilterIsValid (config.topicFilter h) = true → u.Serves h

/-- Without active subscriptions. -/
def cleared (u : Subscriptions) : Subscriptions := { u with active := [] }

variable {u : Subscriptions} {config config' : EmbskyConfig}

theorem Consistent.cleared (hu : u.Consistent config) : u.cleared.Consistent config' where
  filters := List.nodup_nil
  objects := List.nodup_nil
  slots := hu.slots
  active_lt := fun _ hx => absurd hx List.not_mem_nil
  slots_lt := hu.slots_lt
  filter := fun _ hx => absurd hx List.not_mem_nil

theorem not_serves_cleared {h : Handler} : ¬ u.cleared.Serves h := by
  rintro ⟨x, hx, -⟩
  exact List.not_mem_nil hx

/-- A handler is called once at most. -/
theorem Consistent.nodup_receivers (hu : u.Consistent config) (p : QString × Nat → Bool) :
    ((u.active.filter p).flatMap fun x =>
      (u.slots.filter (·.1 = x.2)).map Prod.snd).Nodup := by
  rw [List.nodup_flatMap]
  constructor
  · intro x hx
    refine List.Nodup.map_on ?_ (hu.slots.filter _)
    intro a ha b hb heq
    obtain ⟨-, ha⟩ := List.mem_filter.mp ha
    obtain ⟨-, hb⟩ := List.mem_filter.mp hb
    exact Prod.ext ((of_decide_eq_true ha).trans (of_decide_eq_true hb).symm) heq
  · have hpairwise : u.active.Pairwise fun x y => x.1 ≠ y.1 := List.pairwise_map.mp hu.filters
    refine (hpairwise.filter p).imp_of_mem fun {x y} hx hy hne => ?_
    intro h hhx hhy
    obtain ⟨a, ha, rfl⟩ := List.mem_map.mp hhx
    obtain ⟨b, hb, heq⟩ := List.mem_map.mp hhy
    obtain ⟨ha, hax⟩ := List.mem_filter.mp ha
    obtain ⟨hb, hby⟩ := List.mem_filter.mp hb
    have hx := hu.filter x (List.mem_of_mem_filter hx) a.2 (of_decide_eq_true hax ▸ ha)
    have hy := hu.filter y (List.mem_of_mem_filter hy) b.2 (of_decide_eq_true hby ▸ hb)
    exact hne (by rw [hx, hy, heq])

/-- An object is made, and nothing else. -/
def skip (u : Subscriptions) : Subscriptions := { u with created := u.created + 1 }

/-- An object is made and becomes active. -/
def add (u : Subscriptions) (topic : QString) : Subscriptions :=
  { u with active := u.active ++ [(topic, u.created)], created := u.created + 1 }

/-- The slot of a handler is connected to an object. -/
def connect (u : Subscriptions) (i : Nat) (h : Handler) : Subscriptions :=
  { u with slots := u.slots ++ [(i, h)] }

theorem Consistent.skip (hu : u.Consistent config) : u.skip.Consistent config where
  filters := hu.filters
  objects := hu.objects
  slots := hu.slots
  active_lt := fun x hx => (hu.active_lt x hx).trans (Nat.lt_succ_self _)
  slots_lt := fun x hx => (hu.slots_lt x hx).trans (Nat.lt_succ_self _)
  filter := hu.filter

theorem Consistent.add (hu : u.Consistent config) {topic : QString}
    (hnew : topic ∉ u.active.map Prod.fst) : (u.add topic).Consistent config where
  filters := by
    rw [Subscriptions.add, List.map_append]
    exact hu.filters.append (List.nodup_singleton _)
      (List.disjoint_singleton.mpr hnew)
  objects := by
    rw [Subscriptions.add, List.map_append]
    refine hu.objects.append (List.nodup_singleton _) (List.disjoint_singleton.mpr fun hmem => ?_)
    obtain ⟨x, hx, heq⟩ := List.mem_map.mp hmem
    exact Nat.lt_irrefl _ (heq ▸ hu.active_lt x hx)
  slots := hu.slots
  active_lt := by
    intro x hx
    rcases List.mem_append.mp hx with hx | hx
    · exact (hu.active_lt x hx).trans (Nat.lt_succ_self _)
    · rw [List.mem_singleton.mp hx]
      exact Nat.lt_succ_self _
  slots_lt := fun x hx => (hu.slots_lt x hx).trans (Nat.lt_succ_self _)
  filter := by
    intro x hx h hslot
    rcases List.mem_append.mp hx with hx | hx
    · exact hu.filter x hx h hslot
    · rw [List.mem_singleton.mp hx] at hslot
      exact absurd (hu.slots_lt _ hslot) (Nat.lt_irrefl _)

theorem Consistent.connect (hu : u.Consistent config) {i : Nat} {h : Handler}
    (hactive : (config.topicFilter h, i) ∈ u.active) (hnot : ¬ u.Serves h) :
    (u.connect i h).Consistent config where
  filters := hu.filters
  objects := hu.objects
  slots := hu.slots.append (List.nodup_singleton _)
    (List.disjoint_singleton.mpr fun hmem => hnot ⟨_, hactive, hmem⟩)
  active_lt := hu.active_lt
  slots_lt := by
    intro x hx
    rcases List.mem_append.mp hx with hx | hx
    · exact hu.slots_lt x hx
    · rw [List.mem_singleton.mp hx]
      exact hu.active_lt _ hactive
  filter := by
    intro x hx k hslot
    rcases List.mem_append.mp hslot with hslot | hslot
    · exact hu.filter x hx k hslot
    · obtain ⟨heq, rfl⟩ := Prod.mk.inj (List.mem_singleton.mp hslot)
      rw [List.inj_on_of_nodup_map hu.objects hx hactive heq]

theorem serves_connect_iff {i : Nat} {h k : Handler} (hi : i ∈ u.active.map Prod.snd) :
    (u.connect i h).Serves k ↔ k = h ∨ u.Serves k := by
  constructor
  · rintro ⟨x, hx, hslot⟩
    rcases List.mem_append.mp hslot with hslot | hslot
    · exact .inr ⟨x, hx, hslot⟩
    · exact .inl (Prod.mk.inj (List.mem_singleton.mp hslot)).2
  · rintro (rfl | ⟨x, hx, hslot⟩)
    · obtain ⟨x, hx, rfl⟩ := List.mem_map.mp hi
      exact ⟨x, hx, List.mem_append_right _ (List.mem_singleton_self _)⟩
    · exact ⟨x, hx, List.mem_append_left _ hslot⟩

theorem Consistent.serves_add_iff (hu : u.Consistent config) {topic : QString} {k : Handler} :
    (u.add topic).Serves k ↔ u.Serves k := by
  constructor
  · rintro ⟨x, hx, hslot⟩
    rcases List.mem_append.mp hx with hx | hx
    · exact ⟨x, hx, hslot⟩
    · rw [List.mem_singleton.mp hx] at hslot
      exact absurd (hu.slots_lt _ hslot) (Nat.lt_irrefl _)
  · rintro ⟨x, hx, hslot⟩
    exact ⟨x, List.mem_append_left _ hx, hslot⟩

end Subscriptions

section

variable {accepts : Nat → Bool}

namespace State

variable {s s' s'' : State}

/-! ## A new session -/

/-- Packets were written and subscriptions made, and nothing else. -/
def Wrote (s s' : State) : Prop :=
  ∃ u a m c w t, s' = { s with
    subscriptions := u
    pendingSubscriptionAck := a
    pendingMessages := m
    packetIdentifierCounter := c
    writes := w
    sent := t }

theorem Wrote.refl : Wrote s s := ⟨_, _, _, _, _, _, rfl⟩

theorem Wrote.trans (h : Wrote s s') (h' : Wrote s' s'') : Wrote s s'' := by
  obtain ⟨_, _, _, _, _, _, rfl⟩ := h
  obtain ⟨_, _, _, _, _, _, rfl⟩ := h'
  exact ⟨_, _, _, _, _, _, rfl⟩

/-- PUBLISH packets leave the subscriptions alone. -/
theorem publish_wrote (s : State) (topic : QString) (qos : UInt8) :
    Wrote s (s.publish accepts topic qos) ∧
      (s.publish accepts topic qos).subscriptions = s.subscriptions := by
  rw [publish]
  split
  next => exact ⟨.refl, rfl⟩
  next =>
    rw [sendControlPublish]
    split
    next =>
      by_cases hqos : 0 < qos
      · simp only [hqos, if_true]
        split
        next => exact ⟨⟨_, _, _, _, _, _, rfl⟩, rfl⟩
        next => exact ⟨⟨_, _, _, _, _, _, rfl⟩, rfl⟩
      · simp only [hqos, if_false, decide_false, Bool.and_false, Bool.false_eq_true]
        exact ⟨⟨_, _, _, _, _, _, rfl⟩, rfl⟩
    next => exact ⟨.refl, rfl⟩

theorem findActiveSubscription_eq_some {topic : QString} {i : Nat}
    (h : s.findActiveSubscription topic = some i) : (topic, i) ∈ s.subscriptions.active := by
  obtain ⟨x, hx, rfl⟩ := Option.map_eq_some_iff.mp h
  have htopic := List.find?_some hx
  rw [decide_eq_true_eq] at htopic
  rw [← htopic]
  exact List.mem_of_find?_eq_some hx

theorem findActiveSubscription_eq_none {topic : QString}
    (h : s.findActiveSubscription topic = none) : topic ∉ s.subscriptions.active.map Prod.fst := by
  intro hmem
  obtain ⟨x, hx, rfl⟩ := List.mem_map.mp hmem
  have hnone := List.find?_eq_none.mp (Option.map_eq_none_iff.mp h) x hx
  exact hnone (decide_eq_true rfl)

/-- From a state without active subscriptions the handlers in `hs` were tried. -/
structure Subscribed (accepts : Nat → Bool) (s₀ s : State) (hs : List Handler) : Prop where
  wrote : Wrote s₀ s
  consistent : s.subscriptions.Consistent s₀.config
  only : ∀ k, s.subscriptions.Serves k → k ∈ hs
  complete : (∀ n, accepts n = true) → ∀ k ∈ hs,
    topicFilterIsValid (s₀.config.topicFilter k) = true → s.subscriptions.Serves k

variable {s₀ : State} {hs : List Handler}

/-- A handler that was not tried yet, by how its subscription comes out. -/
theorem Subscribed.cons_of_same (hR : Subscribed accepts s₀ s hs) {h : Handler}
    (hwrote : Wrote s s') (hsub : s'.subscriptions = s.subscriptions ∨
      s'.subscriptions = s.subscriptions.skip)
    (hbad : (∀ n, accepts n = true) → topicFilterIsValid (s₀.config.topicFilter h) = true →
      False) : Subscribed accepts s₀ s' (h :: hs) := by
  have hserves : ∀ k, s'.subscriptions.Serves k ↔ s.subscriptions.Serves k := by
    intro k
    rcases hsub with heq | heq
    · rw [heq]
    · rw [heq]
      exact Iff.rfl
  refine ⟨hR.wrote.trans hwrote, ?_, fun k hk => ?_, fun hall k hk hvalid => ?_⟩
  · rcases hsub with heq | heq
    · rw [heq]
      exact hR.consistent
    · rw [heq]
      exact hR.consistent.skip
  · exact List.mem_cons_of_mem _ (hR.only k ((hserves k).mp hk))
  · rcases List.mem_cons.mp hk with rfl | hk
    · exact absurd hvalid fun hvalid => hbad hall hvalid
    · exact (hserves k).mpr (hR.complete hall k hk hvalid)

theorem Subscribed.cons_of_connect (hR : Subscribed accepts s₀ s hs) {h : Handler}
    {u : Subscriptions} {i : Nat} (hwrote : Wrote s s')
    (hsub : s'.subscriptions = u.connect i h) (hu : u.Consistent s₀.config)
    (hi : (s₀.config.topicFilter h, i) ∈ u.active) (hh : h ∉ hs)
    (hserves : ∀ k, u.Serves k ↔ s.subscriptions.Serves k) :
    Subscribed accepts s₀ s' (h :: hs) := by
  have hnot : ¬ u.Serves h := fun hserved => hh (hR.only h ((hserves h).mp hserved))
  have hmem : i ∈ u.active.map Prod.snd := List.mem_map_of_mem (f := Prod.snd) hi
  refine ⟨hR.wrote.trans hwrote, ?_, fun k hk => ?_, fun hall k hk hvalid => ?_⟩
  · rw [hsub]
    exact hu.connect hi hnot
  · rw [hsub, Subscriptions.serves_connect_iff hmem, hserves] at hk
    rcases hk with rfl | hk
    · exact List.mem_cons_self
    · exact List.mem_cons_of_mem _ (hR.only k hk)
  · rw [hsub, Subscriptions.serves_connect_iff hmem, hserves]
    rcases List.mem_cons.mp hk with rfl | hk
    · exact .inl rfl
    · exact .inr (hR.complete hall k hk hvalid)

theorem Subscribed.subscribeHandler (hR : Subscribed accepts s₀ s hs)
    (hstate : s₀.client.state = .connected) {h : Handler} (hh : h ∉ hs) {qos : UInt8}
    (hqos : ¬ 2 < qos) :
    Subscribed accepts s₀ (s.subscribeHandler accepts h qos) (h :: hs) := by
  obtain ⟨_, _, _, _, _, _, hs⟩ := hR.wrote
  have hconfig : s.config = s₀.config := by rw [hs]
  have hclient : s.client = s₀.client := by rw [hs]
  rw [State.subscribeHandler, subscribe, if_neg (by rw [hclient, hstate]; exact not_not.mpr rfl),
    sendControlSubscribe]
  split
  next sub s' heq =>
    split at heq
    next => cases heq
    next hvalid =>
      split at heq
      next i hfind =>
        cases heq
        refine hR.cons_of_connect ⟨_, _, _, _, _, _, rfl⟩ rfl hR.consistent ?_ hh fun k => Iff.rfl
        rw [← hconfig]
        exact findActiveSubscription_eq_some hfind
      next hfind =>
        simp only at heq
        split at heq
        next hwritten =>
          cases heq
          refine hR.cons_of_connect (u := s.subscriptions.add (s.config.topicFilter h))
            ⟨_, _, _, _, _, _, rfl⟩ rfl
            (hR.consistent.add (findActiveSubscription_eq_none hfind)) ?_ hh
            fun k => hR.consistent.serves_add_iff
          rw [← hconfig]
          exact List.mem_append_right _ (List.mem_singleton_self _)
        next => cases heq
  next s' heq =>
    split at heq
    next hinvalid =>
      cases heq
      refine hR.cons_of_same .refl (.inl rfl) fun _ hvalid => ?_
      rw [← hconfig] at hvalid
      simp only [hvalid, Bool.not_true, Bool.false_or, decide_eq_true_eq] at hinvalid
      exact hqos hinvalid
    next =>
      split at heq
      next => cases heq
      next =>
        simp only at heq
        split at heq
        next => cases heq
        next hwritten =>
          cases heq
          exact hR.cons_of_same ⟨_, _, _, _, _, _, rfl⟩ (.inr rfl) fun hall _ =>
            hwritten (hall _)

theorem Subscribed.skip (hR : Subscribed accepts s₀ s hs) {h : Handler}
    (hempty : s.config.topicFilter h = []) : Subscribed accepts s₀ s (h :: hs) := by
  refine hR.cons_of_same .refl (.inl rfl) fun _ hvalid => ?_
  obtain ⟨_, _, _, _, _, _, hs⟩ := hR.wrote
  have hconfig : s.config = s₀.config := by rw [hs]
  rw [← hconfig, hempty] at hvalid
  cases hvalid

/-- `subscribeTopics` in a session that begins. -/
theorem subscribeTopics_subscribed {config : EmbskyConfig}
    (hu : s.subscriptions.Consistent config) (hactive : s.subscriptions.active = [])
    (hstate : s.client.state = .connected) :
    Subscribed accepts s (s.subscribeTopics accepts) [.thresholds, .alarm, .humi, .temp] := by
  have hcleared : s.subscriptions = s.subscriptions.cleared := by
    rw [Subscriptions.cleared, ← hactive]
  have h₀ : Subscribed accepts s s [] := by
    refine ⟨.refl, ?_, fun k hk => ?_, fun _ k hk => absurd hk List.not_mem_nil⟩
    · rw [hcleared]
      exact hu.cleared
    · rw [hcleared] at hk
      exact absurd hk Subscriptions.not_serves_cleared
  rw [subscribeTopics]
  have h₁ : Subscribed accepts s (if s.config.tempTopic ≠ [] then
      s.subscribeHandler accepts .temp 0 else s) [.temp] := by
    split
    next => exact h₀.subscribeHandler hstate List.not_mem_nil (by decide)
    next hempty => exact h₀.skip (not_not.mp hempty)
  generalize (if s.config.tempTopic ≠ [] then s.subscribeHandler accepts .temp 0 else s) = s₁
    at h₁ ⊢
  have h₂ : Subscribed accepts s (if s₁.config.humiTopic ≠ [] then
      s₁.subscribeHandler accepts .humi 0 else s₁) [.humi, .temp] := by
    split
    next => exact h₁.subscribeHandler hstate (by decide) (by decide)
    next hempty => exact h₁.skip (not_not.mp hempty)
  exact (h₂.subscribeHandler hstate (by decide) (by decide)).subscribeHandler hstate (by decide)
    (by decide)

end State

end

end IotEdge.Mqtt
