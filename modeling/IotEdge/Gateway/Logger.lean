import IotEdge.Lib.Mutex

/-!
# The log

`write_log` appends a line to the log file of the day and prints it, under `log_mutex`.
All calls between the lock and the unlock are calls of the standard I/O library.
-/

namespace IotEdge

/-- The next statement of `write_log`.  What comes before the lock only computes
texts. -/
inductive LogPc where
  /-- `pthread_mutex_lock(&log_mutex)`. -/
  | lock
  | fopen
  /-- `fprintf` of the time and the level. -/
  | fprintf
  /-- `vfprintf` of the message. -/
  | vfprintf
  /-- `fprintf` of the line end. -/
  | newline
  | fclose
  /-- `printf` of the time and the level. -/
  | printf
  /-- `vprintf` of the message. -/
  | vprintf
  /-- `printf` of the line end. -/
  | printNewline
  /-- `pthread_mutex_unlock(&log_mutex)`. -/
  | unlock
deriving DecidableEq, Repr

namespace LogPc

/-- The statement after this one, if there is one.  `ok` says whether `fopen` gives a
file. -/
def next (ok : Bool) : LogPc → Option LogPc
  | .lock => some .fopen
  | .fopen => some (if ok then .fprintf else .printf)
  | .fprintf => some .vfprintf
  | .vfprintf => some .newline
  | .newline => some .fclose
  | .fclose => some .printf
  | .printf => some .vprintf
  | .vprintf => some .printNewline
  | .printNewline => some .unlock
  | .unlock => none

/-- Behind the lock. -/
def holds : LogPc → Bool
  | .lock => false
  | _ => true

/-- A call of the standard I/O library. -/
def stdio : LogPc → Bool
  | .lock | .unlock => false
  | _ => true

/-- What the statement does to the owner of `log_mutex`.  `none` when the thread has to
wait. -/
def mutex {τ : Type} (t : τ) (owner : Option τ) : LogPc → Option (Option τ)
  | .lock => if owner.isNone then some (some t) else none
  | .unlock => some none
  | _ => some owner

/-- The statements before the unlock. -/
def left : LogPc → Nat
  | .lock => 9
  | .fopen => 8
  | .fprintf => 7
  | .vfprintf => 6
  | .newline => 5
  | .fclose => 4
  | .printf => 3
  | .vprintf => 2
  | .printNewline => 1
  | .unlock => 0

variable {τ : Type} {t : τ} {owner owner' : Option τ} {pc : LogPc}

theorem holds_of_stdio (h : pc.stdio = true) : pc.holds = true := by
  cases pc with
  | lock => cases h
  | _ => rfl

/-- A statement takes the mutex, gives it back, or is inside. -/
theorem act (h : pc.mutex t owner = some owner') (ok : Bool) :
    Mutex.Act t owner pc.holds owner' ((pc.next ok).any holds) := by
  cases pc with
  | lock =>
      rw [mutex] at h
      split at h
      next hfree =>
        cases Option.isNone_iff_eq_none.mp hfree
        cases h
        exact .acquire
      next => cases h
  | unlock =>
      cases h
      exact .release
  | fopen =>
      cases h
      cases ok <;> exact .frame
  | _ =>
      cases h
      exact .frame

/-- Inside, a statement other than the unlock leads on and keeps the mutex. -/
theorem next_of_holds (hpc : pc.holds = true) (hne : pc ≠ .unlock) (t : τ) (owner : Option τ) :
    ∃ pc', pc.next true = some pc' ∧ pc'.holds = true ∧ pc'.left < pc.left ∧
      pc.mutex t owner = some owner := by
  cases pc with
  | lock => cases hpc
  | unlock => exact absurd rfl hne
  | _ => exact ⟨_, rfl, rfl, by decide, rfl⟩

end LogPc

end IotEdge
