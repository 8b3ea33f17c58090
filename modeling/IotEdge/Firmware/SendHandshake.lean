import IotEdge.Firmware.Esp8266

/-!
# Sending with the WiFi module

`esp8266_send` asks the module for a transmission and waits twice, for `OK` and for
the prompt `>`.  The interrupt sets one flag for both, and the main program clears
the flag between the two waits.  The module sends both answers in one go.

A prompt that arrives before the flag is cleared is forgotten.  Then the second loop
waits for a byte that does not come any more (`State.Missed`, `Missed.stuck`), and
`send_handshake_iff` says that this is the only way to get there.
-/

namespace IotEdge.Esp8266.Handshake

open CString

/-- The next statement of `esp8266_send`. -/
inductive Pc where
  /-- The first `ok_flag = 0`. -/
  | clearOk
  /-- The command is sent. -/
  | command
  /-- The loop that waits for `OK`. -/
  | waitOk
  /-- The second `ok_flag = 0`. -/
  | clearPrompt
  /-- The loop that waits for `>`. -/
  | waitPrompt
  /-- The third `ok_flag = 0`. -/
  | clearSent
  /-- The message is sent. -/
  | message
  /-- The loop that waits for `SEND OK`. -/
  | waitSent
  /-- `esp8266_send` has returned. -/
  | done
deriving DecidableEq, Repr

/-- The answer to `AT+CIPSEND`. -/
def answer : List UInt8 := ascii "OK\r\n>"

/-- The main program, the interrupt and the module. -/
structure State where
  /-- Where the main program is. -/
  pc : Pc
  /-- The variables of `esp8266.c`. -/
  handler : Esp8266.State
  /-- What is left of the answer.  There is none before the command was sent. -/
  reply : Option (List UInt8)

/-- The labels. -/
inductive Action where
  /-- The next statement of the main program. -/
  | main
  /-- The receive interrupt. -/
  | receive
deriving DecidableEq, Repr

namespace State

/-- `ok_flag`. -/
def okFlag (s : State) : Bool := s.handler.matcher.okFlag

/-- `ok_flag = 0`, and on to the next statement. -/
def clear (s : State) (pc : Pc) : State :=
  { s with
    pc := pc
    handler := { s.handler with matcher := { s.handler.matcher with okFlag := false } } }

/-- `while (ok_flag == 0)`: one test of the loop. -/
def test (s : State) (pc : Pc) : State := if s.okFlag then { s with pc := pc } else s

end State

/-- One step. -/
def step (s : State) : Action → Option State
  | .main =>
      match s.pc with
      | .clearOk => some (s.clear .command)
      | .command => some { s with pc := .waitOk, reply := some answer }
      | .waitOk => some (s.test .clearPrompt)
      | .clearPrompt => some (s.clear .waitPrompt)
      | .waitPrompt => some (s.test .clearSent)
      | .clearSent => some (s.clear .message)
      | .message => some { s with pc := .waitSent }
      | .waitSent => some (s.test .done)
      | .done => none
  | .receive =>
      match s.reply with
      | some (c :: rest) =>
          some { s with handler := dataHandler s.handler c, reply := some rest }
      | _ => none

/-- A call of `esp8266_send`, with the interrupt in any state. -/
def machine (handler : Esp8266.State) : Machine State Action := ⟨⟨.clearOk, handler, none⟩, step⟩

/-- The main program waits for a prompt that has been delivered. -/
structure State.Missed (s : State) : Prop where
  /-- It is in the second loop. -/
  pc : s.pc = .waitPrompt
  /-- The flag is not set. -/
  okFlag : s.okFlag = false
  /-- All of the answer was delivered. -/
  reply : s.reply = some []

/-- The prompt has not been delivered when the flag is cleared for it. -/
def ClearsInTime (s : State) (a : Action) : Prop :=
  a = .main → s.pc = .clearPrompt → s.reply ≠ some []

/-- Nothing more happens then. -/
theorem State.Missed.stuck {s s' : State} {a : Action} (h : s.Missed)
    (hs : step s a = some s') : s' = s := by
  obtain ⟨pc, handler, reply⟩ := s
  obtain ⟨rfl, hok, rfl⟩ := h
  cases a with
  | main =>
      cases hs
      rw [test, hok]
      rfl
  | receive => cases hs

variable {handler : Esp8266.State}

/-- What is left of the answer is its end. -/
theorem reply_suffix {s : State} (hr : (machine handler).Reachable s) :
    ∀ rest, s.reply = some rest → rest <:+ answer := by
  refine hr.invariant (I := fun s => ∀ rest, s.reply = some rest → rest <:+ answer)
    (fun _ h => by cases h) ?_
  intro s a s' hI hs
  cases a with
  | receive =>
      simp only [machine, step] at hs
      split at hs
      next c rest hreply =>
        cases hs
        intro rest' hrest
        cases hrest
        exact (List.suffix_cons c rest).trans (hI _ hreply)
      next => cases hs
  | main =>
      simp only [machine, step] at hs
      cases hpc : s.pc <;> rw [hpc] at hs <;> cases hs <;>
        first
        | exact hI
        | (rw [State.test]; split <;> exact hI)
        | (intro rest hrest; cases hrest; exact List.suffix_refl _)

/-- The last byte of the answer sets the flag. -/
theorem okFlag_last {h : Esp8266.State} {c : UInt8} (hc : [c] <:+ answer) :
    (dataHandler h c).matcher.okFlag = true := by
  have hprompt : c = 62 := by
    obtain ⟨before, hbefore⟩ := hc
    have hlast := congrArg List.getLast? hbefore
    rw [List.getLast?_append] at hlast
    exact Option.some.inj hlast
  rw [dataHandler, Matcher.take, if_pos (.inl hprompt)]

/-- The second loop is entered by clearing the flag, and entered only once. -/
theorem waitPrompt_cases {s s' : State} (hs : step s .main = some s')
    (hpc : s'.pc = .waitPrompt) :
    s.pc = .clearPrompt ∨ s.pc = .waitPrompt ∧ s' = s := by
  simp only [step] at hs
  cases hs' : s.pc with
  | clearPrompt => exact .inl rfl
  | waitPrompt =>
      rw [hs'] at hs
      cases hs
      rw [State.test] at hpc ⊢
      split at hpc
      next => cases hpc
      next hok => exact .inr ⟨rfl, if_neg hok⟩
  | waitOk | clearSent | waitSent =>
      rw [hs'] at hs
      cases hs
      first
      | cases hpc
      | (rw [State.test] at hpc
         split at hpc
         next => cases hpc
         next => rw [hs'] at hpc; cases hpc)
  | clearOk | command | message | done =>
      rw [hs'] at hs
      cases hs
      try cases hpc

/-- A step misses the prompt just when it clears the flag too late. -/
theorem not_missed_iff {s s' : State} {a : Action} (hr : (machine handler).Reachable s)
    (h : ¬ s.Missed) (hs : step s a = some s') : ¬ s'.Missed ↔ ClearsInTime s a := by
  cases a with
  | receive =>
      refine iff_of_true ?_ fun h => by cases h
      simp only [step] at hs
      split at hs
      next c rest hreply =>
        cases hs
        rintro ⟨-, hok, hrest⟩
        cases hrest
        rw [State.okFlag, okFlag_last (reply_suffix hr _ hreply)] at hok
        cases hok
      next => cases hs
  | main =>
      rcases eq_or_ne s.pc .clearPrompt with hpc | hpc
      · simp only [step, hpc, Option.some.injEq] at hs
        subst hs
        constructor
        · exact fun hnot _ _ hreply => hnot ⟨rfl, rfl, hreply⟩
        · exact fun hintime hmissed => hintime rfl hpc hmissed.reply
      · refine iff_of_true ?_ fun _ hpc' => absurd hpc' hpc
        intro hmissed
        rcases waitPrompt_cases hs hmissed.pc with hclear | ⟨-, rfl⟩
        · exact hpc hclear
        · exact h hmissed

/-- Along any run, `esp8266_send` never waits for a prompt that was delivered, just when
it always clears the flag for the prompt before the prompt is there. -/
theorem send_handshake_iff (handler : Esp8266.State) {as : List Action} {s : State}
    (hrun : (machine handler).run as = some s) :
    (machine handler).Always as (fun s => ¬ s.Missed) ↔
      (machine handler).EachStep as ClearsInTime :=
  Machine.always_iff_eachStep (fun h => by cases h.pc)
    (fun hr h hs => not_missed_iff hr h hs) hrun

/-- All of the answer arrives before the first loop is left. -/
def promptEarly : List Action :=
  [.main, .main, .receive, .receive, .receive, .receive, .receive, .main]

theorem run_promptEarly : ∃ s, (machine (init false)).run promptEarly = some s ∧
    s.pc = .clearPrompt ∧ s.reply = some [] := by
  have hrun : ((machine (init false)).run promptEarly).map (fun s => (s.pc, s.reply)) =
      some (.clearPrompt, some []) := by decide
  obtain ⟨s, hs, heq⟩ := Option.map_eq_some_iff.mp hrun
  obtain ⟨hpc, hreply⟩ := Prod.mk.inj heq
  exact ⟨s, hs, hpc, hreply⟩

/-- The prompt is missed. -/
theorem send_handshake_iff_early : ¬ (machine (init false)).Always
    (promptEarly ++ [.main]) (fun s => ¬ s.Missed) := by
  obtain ⟨s, hs, hpc, hreply⟩ := run_promptEarly
  have hstep : (machine (init false)).run (promptEarly ++ [.main]) =
      some (s.clear .waitPrompt) := by
    rw [Machine.run_concat, hs]
    simp only [Option.bind_some, machine, step, hpc]
  intro h
  exact (send_handshake_iff _ hstep).mp h promptEarly .main (List.prefix_refl _) s hs rfl hpc hreply

/-- The firmware can wait for ever. -/
theorem prompt_missed :
    ¬ ∀ s, (machine (init false)).Reachable s → ¬ s.Missed := by
  intro h
  obtain ⟨s, hs, hpc, hreply⟩ := run_promptEarly
  have hstep : (machine (init false)).step s .main = some (s.clear .waitPrompt) := by
    simp only [machine, step, hpc]
  exact h _ ((Machine.Reachable.of_run hs).step hstep) ⟨rfl, rfl, hreply⟩

end IotEdge.Esp8266.Handshake
