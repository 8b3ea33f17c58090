import IotEdge.Monitor.MqttDelivery

/-!
# The reader returns

`processData` takes turns until there is nothing to do.  Whatever bytes arrive, the turns come to
an end: each of them takes bytes off the buffer, or closes the connection and empties it.  A turn
itself ends, except that of a SUBACK: when `finalize_suback` finds a reason code it does not
know, it closes the connection and goes on to the next reason code, which is not there any more.

`readyRead_returns_iff` puts the two together: the reader does not return if and only if it comes
to a SUBACK that is waited for and has an unknown reason code before its last.
-/

namespace IotEdge.Mqtt

open Monitor

section

variable {accepts : Nat → Bool} {agree : Prop} {fromUtf8 : List UInt8 → QString}

namespace State

variable {s s' s'' t : State}

/-! ## Turns -/

/-- A turn of `processData` that is not the last one. -/
def Turn (accepts : Nat → Bool) (fromUtf8 : List UInt8 → QString) (s s' : State) : Prop :=
  s.processDataHelper accepts fromUtf8 = some (true, s')

/-- The bytes that were not taken yet. -/
def remaining (s : State) : Nat := s.readBuffer.length - s.readPosition

/-- Bytes were taken, or there are none any more. -/
def Spent (s s' : State) : Prop := s'.remaining < s.remaining ∨ s'.readBuffer = []

theorem Keeps.remaining_le (h : Keeps s s') : s'.remaining ≤ s.remaining := by
  rcases h.2 with ⟨-, -, hbuffer, hposition⟩ | ⟨-, -, hbuffer⟩
  · rw [remaining, remaining, hbuffer]
    exact Nat.sub_le_sub_left hposition _
  · rw [remaining, hbuffer]
    exact (Nat.zero_sub _).trans_le (Nat.zero_le _)

theorem Keeps.readBuffer_eq_nil (h : Keeps s s') (hs : s.readBuffer = []) :
    s'.readBuffer = [] := by
  rcases h.2 with ⟨-, -, hbuffer, -⟩ | ⟨-, -, hbuffer⟩
  · rw [hbuffer, hs]
  · exact hbuffer

theorem Spent.trans_keeps (h : Spent s s') (h' : Keeps s' s'') : Spent s s'' :=
  h.imp h'.remaining_le.trans_lt h'.readBuffer_eq_nil

theorem readFirst_spent (h : s.view.Ok accepts agree) : Spent s (s.readFirst accepts) := by
  rw [readFirst, takeBuffer]
  split
  next heq =>
    split at heq
    next =>
      cases heq
      exact .inr (Keeps.refl.closeConnection h _).2.2
    next => cases heq
  next heq =>
    split at heq
    next => cases heq
    next hlength =>
      cases heq
      refine .inl ?_
      simp only [remaining]
      omega

/-- The header takes one byte at least. -/
theorem Reads.readHeader_spent (h : Reads accepts agree s) :
    Spent s (s.readHeader accepts).2 := by
  have hs₁ := readFirst_spent h.ok
  have h₁ := h.readFirst
  obtain ⟨s', hkeeps, hrefuse | ⟨n, hlength, -⟩⟩ := readHeader_headed h₁.ok
  · rw [hrefuse]
    exact hs₁.trans_keeps (hkeeps.trans (keeps_closeConnection (hkeeps.ok h₁.ok) _))
  · rw [hlength]
    exact hs₁.trans_keeps hkeeps

/-- A packet that is there takes no byte that is not its own. -/
theorem Reading.finalizePacket_remaining (h : Reading accepts agree s)
    (hmissing : 0 < s.missingData)
    (havailable : s.missingData ≤ (s.readBuffer.length : Int) - s.readPosition)
    (hs : s.finalizePacket accepts fromUtf8 = some s') : s'.remaining ≤ s.remaining := by
  by_cases htype : s.packetType = 0x20
  · rw [State.finalizePacket, if_pos htype] at hs
    cases hs
    obtain ⟨-, htwo, hinternal⟩ := h.connack_awaited hmissing havailable htype
    rcases finalizeConnack_cases h.ok htwo (by omega) hinternal with
      ⟨-, -, hbuffer⟩ | ⟨-, -, -, hbuffer, hposition⟩
    · rw [remaining, hbuffer]
      exact (Nat.zero_sub _).trans_le (Nat.zero_le _)
    · rw [remaining, remaining, hbuffer]
      exact Nat.sub_le_sub_left hposition _
  · exact (keeps_finalizePacket h.ok htype hs).remaining_le

/-- A turn takes bytes off the buffer, or empties it. -/
theorem Reading.turn_spent (h : Reading accepts agree s) (hs : Turn accepts fromUtf8 s s') :
    Spent s s' := by
  have hheader : ∀ {t : State}, Reads accepts agree t →
      (if lengthIsThere t.readBuffer then t.readHeader accepts else (false, t)) = (true, s') →
      Spent t s' := by
    intro t ht heq
    split at heq
    next =>
      have hspent := ht.readHeader_spent
      rw [heq] at hspent
      exact hspent
    next => cases heq
  rw [Turn, State.processDataHelper] at hs
  split at hs
  next hmissing =>
    split at hs
    next => cases hs
    next havailable =>
      obtain ⟨s₁, hfinal, hs⟩ := Option.map_eq_some_iff.mp hs
      have h₁ := h.finalizePacket hmissing (not_lt.mp havailable) hfinal
      have hremaining := h.finalizePacket_remaining hmissing (not_lt.mp havailable) hfinal
      split at hs
      next => cases hs
      next =>
        have hdrop : Reads accepts agree
            { s₁ with readBuffer := s₁.readBuffer.drop s₁.readPosition, readPosition := 0 } := by
          refine ⟨h₁.ok, h₁.connecting, h₁.live.imp_right fun hnil => ?_⟩
          rw [hnil, List.drop_nil]
        refine (hheader hdrop hs).imp_left fun hlt => hlt.trans_le ?_
        rw [remaining, List.length_drop, Nat.sub_zero]
        exact hremaining
  next => exact hheader h.toReads (Option.some.inj hs)

/-- Without bytes there is nothing to do. -/
theorem processDataHelper_of_nil (h : s.readBuffer = []) :
    s.processDataHelper accepts fromUtf8 = some (false, s) := by
  rw [State.processDataHelper]
  split
  next hmissing =>
    rw [if_pos]
    rw [h, List.length_nil]
    omega
  next =>
    have hlength : ¬ lengthIsThere s.readBuffer = true := by
      rw [h]
      exact Bool.false_ne_true
    exact congrArg some (if_neg hlength)

/-- The turns come to one that has no end. -/
def Stuck (accepts : Nat → Bool) (fromUtf8 : List UInt8 → QString) (s : State) : Prop :=
  ∃ t, Relation.ReflTransGen (Turn accepts fromUtf8) s t ∧
    t.processDataHelper accepts fromUtf8 = none

theorem not_stuck_of_last (h : s.processDataHelper accepts fromUtf8 = some (false, s')) :
    ¬ Stuck accepts fromUtf8 s := by
  rintro ⟨t, hturns, hnone⟩
  rcases Relation.ReflTransGen.cases_head hturns with rfl | ⟨s₁, hturn, -⟩
  · cases hnone.symm.trans h
  · cases hturn.symm.trans h

theorem stuck_iff_of_turn (h : Turn accepts fromUtf8 s s') :
    Stuck accepts fromUtf8 s ↔ Stuck accepts fromUtf8 s' := by
  constructor
  · rintro ⟨t, hturns, hnone⟩
    rcases Relation.ReflTransGen.cases_head hturns with rfl | ⟨s₁, hturn, hturns⟩
    · cases hnone.symm.trans h
    · cases hturn.symm.trans h
      exact ⟨t, hturns, hnone⟩
  · rintro ⟨t, hturns, hnone⟩
    exact ⟨t, hturns.head h, hnone⟩

/-- With as many turns as there are bytes, and two more, the reader returns unless a turn does
not. -/
theorem Reading.processData_eq_none_iff (h : Reading accepts agree s) {fuel : Nat}
    (hfuel : s.remaining + 2 ≤ fuel) :
    s.processData accepts fromUtf8 fuel = none ↔ Stuck accepts fromUtf8 s := by
  induction fuel generalizing s with
  | zero => exact absurd hfuel (Nat.not_succ_le_zero _)
  | succ fuel ih =>
      rw [State.processData]
      rcases hhelper : s.processDataHelper accepts fromUtf8 with _ | ⟨_ | _, s₁⟩
      · exact iff_of_true rfl ⟨s, .refl, hhelper⟩
      · refine iff_of_false ?_ (not_stuck_of_last hhelper)
        rintro ⟨⟩
      · rw [stuck_iff_of_turn hhelper]
        have h₁ := h.processDataHelper hhelper
        have hrest : s₁.processData accepts fromUtf8 fuel = none ↔
            Stuck accepts fromUtf8 s₁ := by
          rcases h.turn_spent hhelper with hlt | hnil
          · exact ih h₁ (by omega)
          · obtain ⟨fuel, rfl⟩ : ∃ n, fuel = n + 1 := ⟨fuel - 1, by omega⟩
            have hlast := @processDataHelper_of_nil accepts fromUtf8 s₁ hnil
            refine iff_of_false ?_ (not_stuck_of_last hlast)
            rw [State.processData, hlast]
            rintro ⟨⟩
        exact hrest

/-! ## The reason codes of a SUBACK -/

/-- A reason code that `finalize_suback` knows. -/
def Known (reason : UInt8) : Prop := reason.toNat ≤ 2 ∨ reason.toNat = 128

/-- The next bytes of the packet are there. -/
theorem readBufferTyped_eq {bytes tail : List UInt8} (hmissing : (bytes.length : Int) ≤ s.missingData)
    (hbytes : s.readBuffer.drop s.readPosition = bytes ++ tail) :
    s.readBufferTyped accepts bytes.length true =
        (bytes.foldl (fun n b => n * 256 + b.toNat) 0, { s with
          readPosition := s.readPosition + bytes.length
          missingData := s.missingData - bytes.length }) ∧
      s.readBuffer.drop (s.readPosition + bytes.length) = tail := by
  have hlength := congrArg List.length hbytes
  rw [List.length_drop, List.length_append] at hlength
  constructor
  · rw [readBufferTyped, if_neg fun h => hmissing.not_gt h.2, takeBuffer, if_neg (by omega),
      hbytes, List.take_left]
    rfl
  · rw [← List.drop_drop, hbytes, List.drop_left]

/-- Behind an unknown reason code the loop has no end. -/
theorem subackReasons_of_nil (h : s.view.Ok accepts agree) (hbuffer : s.readBuffer = [])
    (hmissing : 0 < s.missingData) (fuel : Nat) : s.subackReasons accepts fuel = none := by
  induction fuel generalizing s with
  | zero => rfl
  | succ fuel ih =>
      have hread : s.readBufferTyped accepts 1 true =
          (0, s.closeConnection accepts .protocolViolation) := by
        rw [readBufferTyped, if_neg (by omega), takeBuffer, if_pos]
        rw [hbuffer, List.length_nil, Nat.zero_sub]
        exact Nat.one_pos
      have hsame : (s.closeConnection accepts .protocolViolation).missingData = s.missingData := by
        rw [closeConnection_eq h.pages_eq]
      rw [subackReasons, hread]
      simp only [Nat.zero_le, true_or, if_true, hsame, hmissing]
      exact ih ((keeps_closeConnection h _).ok h) (Keeps.refl.closeConnection h _).2.2
        (hsame ▸ hmissing)

/-- The loop over the reason codes. -/
theorem subackReasons_eq_none_iff {reasons more : List UInt8} (h : s.view.Ok accepts agree)
    (hmissing : s.missingData = reasons.length)
    (hbytes : s.readBuffer.drop s.readPosition = reasons ++ more) {fuel : Nat}
    (hfuel : reasons.length < fuel) :
    s.subackReasons accepts fuel = none ↔ ∃ r ∈ reasons.dropLast, ¬ Known r := by
  induction reasons generalizing s fuel with
  | nil =>
      obtain ⟨fuel, rfl⟩ : ∃ n, fuel = n + 1 := ⟨fuel - 1, by omega⟩
      have hread : s.readBufferTyped accepts 1 true = (0, s) := by
        rw [readBufferTyped, if_pos ⟨rfl, by rw [hmissing]; decide⟩]
      refine iff_of_false ?_ (by rintro ⟨r, hr, -⟩; cases hr)
      rw [subackReasons, hread]
      simp only [Nat.zero_le, true_or, if_true, hmissing, List.length_nil, Nat.cast_zero, lt_irrefl,
        if_false]
      rintro ⟨⟩
  | cons r reasons ih =>
      obtain ⟨fuel, rfl⟩ : ∃ n, fuel = n + 1 := ⟨fuel - 1, by omega⟩
      obtain ⟨hread, htail⟩ := @readBufferTyped_eq accepts s [r] (reasons ++ more)
        (by rw [hmissing]; simp only [List.length_cons, List.length_nil]; omega) hbytes
      simp only [List.length_singleton, List.foldl_cons, List.foldl_nil, zero_mul, zero_add,
        Nat.cast_one] at hread htail
      obtain ⟨s₁, hs₁⟩ : ∃ s₁, s₁ = { s with
        readPosition := s.readPosition + 1, missingData := s.missingData - 1 } := ⟨_, rfl⟩
      rw [← hs₁] at hread
      have h₁ : s₁.view.Ok accepts agree := by
        rw [hs₁]
        exact h
      have hmissing₁ : s₁.missingData = reasons.length := by
        rw [hs₁]
        simp only [hmissing, List.length_cons]
        omega
      have hbytes₁ : s₁.readBuffer.drop s₁.readPosition = reasons ++ more := by
        rw [hs₁]
        exact htail
      rw [subackReasons, hread]
      simp only
      by_cases hknown : Known r
      · rw [if_pos (show r.toNat ≤ 2 ∨ r.toNat = 128 from hknown), hmissing₁]
        rcases reasons with _ | ⟨r', reasons⟩
        · refine iff_of_false ?_ (by rintro ⟨r, hr, -⟩; cases hr)
          rintro ⟨⟩
        · rw [if_pos (by rw [List.length_cons]; omega), ih h₁ hmissing₁ hbytes₁ (by
            rw [List.length_cons] at hfuel
            omega), List.dropLast_cons_cons]
          constructor
          · rintro ⟨r'', hr, hunknown⟩
            exact ⟨r'', List.mem_cons_of_mem _ hr, hunknown⟩
          · rintro ⟨r'', hr, hunknown⟩
            rcases List.mem_cons.mp hr with rfl | hr
            · exact absurd hknown hunknown
            · exact ⟨r'', hr, hunknown⟩
      · rw [if_neg (show ¬ (r.toNat ≤ 2 ∨ r.toNat = 128) from hknown)]
        have hsame : (s₁.closeConnection accepts .protocolViolation).missingData =
            reasons.length := by
          rw [closeConnection_eq h₁.pages_eq]
          exact hmissing₁
        rw [hsame]
        rcases reasons with _ | ⟨r', reasons⟩
        · refine iff_of_false ?_ (by rintro ⟨r, hr, -⟩; cases hr)
          rintro ⟨⟩
        · rw [if_pos (by rw [List.length_cons]; omega)]
          refine iff_of_true ?_ ⟨r, ?_, hknown⟩
          · refine subackReasons_of_nil ((keeps_closeConnection h₁ _).ok h₁)
              (Keeps.refl.closeConnection h₁ _).2.2 ?_ _
            rw [hsame, List.length_cons]
            omega
          · rw [List.dropLast_cons_cons]
            exact List.mem_cons_self

/-- A SUBACK is there and waited for, and it has an unknown reason code before its last. -/
def AtUnknownReason (s : State) : Prop :=
  0 < s.missingData ∧ s.missingData ≤ (s.readBuffer.length : Int) - s.readPosition ∧
    s.packetType = 0x90 ∧ ∃ high low reasons more,
      s.readBuffer.drop s.readPosition = high :: low :: (reasons ++ more) ∧
      s.missingData = (reasons.length : Int) + 2 ∧
      .ofNat (high.toNat * 256 + low.toNat) ∈ s.pendingSubscriptionAck.map Prod.fst ∧
      ∃ r ∈ reasons.dropLast, ¬ Known r

/-- The reason codes of a packet are between its identifier and the next packet. -/
theorem exists_reasons_iff {high low : UInt8} {tail : List UInt8} {k : Nat} {m : Int}
    {P : UInt8 → UInt8 → List UInt8 → Prop} (hm : m = (k : Int) + 2) (hlength : k ≤ tail.length) :
    (∃ high' low' reasons more, high :: low :: tail = high' :: low' :: (reasons ++ more) ∧
      m = (reasons.length : Int) + 2 ∧ P high' low' reasons) ↔ P high low (tail.take k) := by
  constructor
  · rintro ⟨high', low', reasons, more, heq, hreasons, h⟩
    obtain ⟨hhigh, hrest⟩ := List.cons.inj heq
    obtain ⟨hlow, hrest⟩ := List.cons.inj hrest
    have hk : reasons.length = k := by omega
    rw [hrest, ← hk, List.take_left, hhigh, hlow]
    exact h
  · intro h
    refine ⟨high, low, tail.take k, tail.drop k, ?_, ?_, h⟩
    · rw [List.take_append_drop]
    · rw [hm, List.length_take_of_le hlength]

/-- A SUBACK of one byte has no identifier, and its byte is the reason code. -/
theorem finalizeSuback_ne_none {high : UInt8} {tail : List UInt8} (h : s.view.Ok accepts agree)
    (hmissing : s.missingData = 1) (hbytes : s.readBuffer.drop s.readPosition = high :: tail) :
    s.finalizeSuback accepts ≠ none := by
  have hread : s.readBufferTyped accepts 2 true = (0, s) := by
    rw [readBufferTyped, if_pos ⟨rfl, by rw [hmissing]; decide⟩]
  rw [finalizeSuback, hread]
  simp only
  split
  next =>
    intro hnone
    obtain ⟨r, hr, -⟩ := (@subackReasons_eq_none_iff accepts agree _ [high] tail (by exact h)
      (by exact hmissing) (by exact hbytes) _ (by rw [List.length_singleton]; omega)).mp hnone
    cases hr
  next => rintro ⟨⟩

theorem finalizeSuback_eq_none_iff (h : s.view.Ok accepts agree) (hmissing : 0 < s.missingData)
    (havailable : s.missingData ≤ (s.readBuffer.length : Int) - s.readPosition) :
    s.finalizeSuback accepts = none ↔ ∃ high low reasons more,
      s.readBuffer.drop s.readPosition = high :: low :: (reasons ++ more) ∧
      s.missingData = (reasons.length : Int) + 2 ∧
      .ofNat (high.toNat * 256 + low.toNat) ∈ s.pendingSubscriptionAck.map Prod.fst ∧
      ∃ r ∈ reasons.dropLast, ¬ Known r := by
  obtain ⟨m, hm⟩ : ∃ m : Nat, s.missingData = m := ⟨s.missingData.toNat, by omega⟩
  have hlength : m ≤ (s.readBuffer.drop s.readPosition).length := by
    rw [List.length_drop]
    omega
  rcases hbytes : s.readBuffer.drop s.readPosition with _ | ⟨high, tail⟩
  · rw [hbytes, List.length_nil] at hlength
    omega
  rcases m with _ | _ | k
  · omega
  · refine iff_of_false (finalizeSuback_ne_none h hm hbytes) ?_
    rintro ⟨-, -, reasons, -, -, hreasons, -⟩
    omega
  rcases tail with _ | ⟨low, tail⟩
  · rw [hbytes, List.length_singleton] at hlength
    omega
  rw [hbytes, List.length_cons, List.length_cons] at hlength
  have hk : k ≤ tail.length := by omega
  have hm : s.missingData = (k : Int) + 2 := by omega
  have hreasons : (tail.take k).length = k := List.length_take_of_le hk
  obtain ⟨hread, htail⟩ := @readBufferTyped_eq accepts s [high, low] tail
    (by rw [hm]; simp only [List.length_cons, List.length_nil]; omega) hbytes
  simp only [List.length_cons, List.length_nil, List.foldl_cons, List.foldl_nil, zero_mul,
    zero_add, Nat.reduceAdd, Nat.cast_ofNat] at hread htail
  rw [exists_reasons_iff hm hk, finalizeSuback, hread]
  simp only
  split
  next hpending =>
    rw [and_iff_right (List.contains_iff_mem.mp hpending)]
    refine @subackReasons_eq_none_iff accepts agree _ (tail.take k) (tail.drop k)
      (by exact h) ?_ ?_ _ ?_
    · simp only [hreasons]
      omega
    · exact htail.trans (List.take_append_drop k tail).symm
    · simp only [hreasons]
      omega
  next hpending =>
    refine iff_of_false (by rintro ⟨⟩) ?_
    rintro ⟨hmem, -⟩
    exact hpending (List.contains_iff_mem.mpr hmem)

/-- The only turn that does not end. -/
theorem Reading.processDataHelper_eq_none_iff (h : Reading accepts agree s) :
    s.processDataHelper accepts fromUtf8 = none ↔ s.AtUnknownReason := by
  rw [State.processDataHelper, AtUnknownReason]
  split
  next hmissing =>
    rw [and_iff_right hmissing]
    split
    next hshort =>
      refine iff_of_false (by rintro ⟨⟩) ?_
      rintro ⟨havailable, -⟩
      exact hshort.not_ge havailable
    next havailable =>
      have havailable := not_lt.mp havailable
      rw [and_iff_right havailable, Option.map_eq_none_iff, State.finalizePacket]
      split
      next htype =>
        refine iff_of_false (by rintro ⟨⟩) ?_
        rintro ⟨htype', -⟩
        cases htype.symm.trans htype'
      next =>
        split
        next htype => rw [and_iff_right htype, finalizeSuback_eq_none_iff h.ok hmissing havailable]
        next htype =>
          refine iff_of_false ?_ fun hsuback => htype hsuback.1
          split_ifs <;> rintro ⟨⟩
  next hmissing =>
    refine iff_of_false (by rintro ⟨⟩) ?_
    rintro ⟨hpos, -⟩
    exact hmissing hpos

theorem Reading.of_turns (h : Reading accepts agree s)
    (hturns : Relation.ReflTransGen (Turn accepts fromUtf8) s t) : Reading accepts agree t := by
  induction hturns with
  | refl => exact h
  | tail _ hturn ih => exact ih.processDataHelper hturn

end State

variable {config : EmbskyConfig} {clientId : QString}

/-- In every reachable state, and whatever bytes arrive, the reader returns unless it comes to a
SUBACK that is waited for and has an unknown reason code before its last; then it does not. -/
theorem readyRead_returns_iff {s : State}
    (h : (machine accepts fromUtf8 config clientId).Reachable s) (hsocket : s.socket = .connected)
    (bytes : List UInt8) :
    s.transportReadyRead accepts fromUtf8 bytes = none ↔
      ∃ t, Relation.ReflTransGen (State.Turn accepts fromUtf8)
        { s with readBuffer := s.readBuffer ++ bytes } t ∧ t.AtUnknownReason := by
  have hinv := reachable_inv h
  have hreading : State.Reading accepts False { s with readBuffer := s.readBuffer ++ bytes } :=
    ⟨⟨hinv.ok, hinv.connecting, .inl hsocket⟩, hinv.connack⟩
  rw [State.transportReadyRead, hreading.processData_eq_none_iff]
  · refine exists_congr fun t => and_congr_right fun hturns => ?_
    exact (hreading.of_turns hturns).processDataHelper_eq_none_iff
  · simp only [State.remaining]
    omega

/-- A SUBACK with an unknown reason code and another behind it. -/
theorem readyRead_returns_suback :
    let fields : EmbskyConfig := ⟨[0x68], 1883, [0x75], [0x70], [0x63], 60, [0x61], [0x2b]⟩
    let accepts : Nat → Bool := fun _ => true
    let fromUtf8 : List UInt8 → QString := (·.map UInt8.toUInt16)
    let bytes : List UInt8 := [0x90, 4, 0, 2, 5, 0]
    ∃ s, (machine accepts fromUtf8 fields []).run
        [.clicked fields 0 true, .connected, .readyRead [0x20, 2, 0, 0]] = some s ∧
      (s.socket, (s.transportReadyRead accepts fromUtf8 bytes).isNone) = (.connected, true) ∧
      (s.transportReadyRead accepts fromUtf8 bytes = none ↔
        ∃ t, Relation.ReflTransGen (State.Turn accepts fromUtf8)
          { s with readBuffer := s.readBuffer ++ bytes } t ∧ t.AtUnknownReason) := by
  intro fields accepts fromUtf8 bytes
  obtain ⟨s, hs, hnone⟩ := Option.map_eq_some_iff.mp
    (by decide : ((machine accepts fromUtf8 fields []).run
        [.clicked fields 0 true, .connected, .readyRead [0x20, 2, 0, 0]]).map
          (fun s => (s.socket, (s.transportReadyRead accepts fromUtf8 bytes).isNone)) =
      some (.connected, true))
  exact ⟨s, hs, hnone, readyRead_returns_iff ⟨_, hs⟩ (congrArg Prod.fst hnone) bytes⟩

end

end IotEdge.Mqtt
