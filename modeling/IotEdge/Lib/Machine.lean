import Mathlib.Data.List.Infix

/-!
# Machines and their runs

A machine has an initial state and a partial step function.  A label carries
everything a step does not decide by itself: which thread moves, what a system
call returned, when a signal arrives.  A label that the state does not admit
gives `none`, so the runs of a machine are exactly its legal interleavings.

Two ways to speak of all runs are used.  `Machine.Reachable` is for invariants,
and `Reachable.invariant` is the induction rule.  `Machine.Always` and
`Machine.EachStep` speak of every state and of every step along one run.
`always_iff_eachStep` relates them: if a condition on each step says exactly
when that step keeps a property, then along a whole run the property always
holds just when every step meets the condition.  `always_iff_eachStep_of_invariant`
is the same where what a step keeps is an invariant stronger than the property.

`Machine.Simulates` relates two machines by a function on their states, and takes
what is reachable in the one to what is reachable in the other.
-/

universe u v w x

/-- An initial state and a partial step function. -/
structure Machine (σ : Type u) (α : Type v) where
  /-- The initial state. -/
  init : σ
  /-- One step.  `none` when the label is not possible in the state. -/
  step : σ → α → Option σ

namespace Machine

variable {σ : Type u} {α : Type v} (m : Machine σ α)

/-- The state after the labels `as` from `s`, if all of them are possible. -/
def runFrom (s : σ) (as : List α) : Option σ := as.foldlM m.step s

/-- The state after the labels `as` from the initial state. -/
def run (as : List α) : Option σ := m.runFrom m.init as

/-- Some run ends in `s`. -/
def Reachable (s : σ) : Prop := ∃ as, m.run as = some s

/-- `P` holds of every state along the run `as`. -/
def Always (as : List α) (P : σ → Prop) : Prop :=
  ∀ pre, pre <+: as → ∀ s, m.run pre = some s → P s

/-- `C` holds of every step along the run `as`, at the state it is taken in. -/
def EachStep (as : List α) (C : σ → α → Prop) : Prop :=
  ∀ pre a, pre ++ [a] <+: as → ∀ s, m.run pre = some s → C s a

variable {m}

/-! ## Runs -/

@[simp] theorem runFrom_nil (s : σ) : m.runFrom s [] = some s := rfl

@[simp] theorem runFrom_cons (s : σ) (a : α) (as : List α) :
    m.runFrom s (a :: as) = (m.step s a).bind (m.runFrom · as) := by
  simp [runFrom]

theorem runFrom_cons_eq_some {s s' : σ} {a : α} {as : List α} :
    m.runFrom s (a :: as) = some s' ↔ ∃ t, m.step s a = some t ∧ m.runFrom t as = some s' := by
  rw [runFrom_cons, Option.bind_eq_some_iff]

theorem runFrom_append (s : σ) (as bs : List α) :
    m.runFrom s (as ++ bs) = (m.runFrom s as).bind (m.runFrom · bs) := by
  simp [runFrom]

@[simp] theorem run_nil : m.run [] = some m.init := rfl

theorem run_append (as bs : List α) :
    m.run (as ++ bs) = (m.run as).bind (m.runFrom · bs) := runFrom_append _ _ _

theorem run_concat (as : List α) (a : α) :
    m.run (as ++ [a]) = (m.run as).bind (m.step · a) := by
  rw [run_append]
  cases m.run as with
  | none => rfl
  | some s => simp only [Option.bind_some, runFrom_cons]; cases m.step s a <;> rfl

/-- A run that ends with `a` reached a state before it. -/
theorem run_concat_eq_some {as : List α} {a : α} {s' : σ} :
    m.run (as ++ [a]) = some s' ↔ ∃ s, m.run as = some s ∧ m.step s a = some s' := by
  rw [run_concat, Option.bind_eq_some_iff]

/-- Every beginning of a run is a run. -/
theorem exists_run_of_append {as bs : List α} {s' : σ} (h : m.run (as ++ bs) = some s') :
    ∃ s, m.run as = some s ∧ m.runFrom s bs = some s' := by
  rw [run_append, Option.bind_eq_some_iff] at h
  exact h

/-! ## Reachable states -/

theorem Reachable.init : m.Reachable m.init := ⟨[], rfl⟩

theorem Reachable.of_run {as : List α} {s : σ} (h : m.run as = some s) : m.Reachable s :=
  ⟨as, h⟩

theorem Reachable.step {s s' : σ} {a : α} (hr : m.Reachable s) (h : m.step s a = some s') :
    m.Reachable s' := by
  obtain ⟨as, has⟩ := hr
  exact ⟨as ++ [a], run_concat_eq_some.mpr ⟨s, has, h⟩⟩

/-- What a step keeps, a run keeps. -/
theorem runFrom_induction {I : σ → Prop} (hstep : ∀ {s a s'}, I s → m.step s a = some s' → I s')
    {as : List α} {s s' : σ} (hs : I s) (h : m.runFrom s as = some s') : I s' := by
  induction as generalizing s with
  | nil =>
      rw [runFrom_nil, Option.some.injEq] at h
      exact h ▸ hs
  | cons a as ih =>
      obtain ⟨t, ha, hrest⟩ := runFrom_cons_eq_some.mp h
      exact ih (hstep hs ha) hrest

/-- The invariant rule: what holds initially and is kept by every step holds of
every reachable state. -/
theorem Reachable.invariant {I : σ → Prop} (h0 : I m.init)
    (hstep : ∀ {s a s'}, I s → m.step s a = some s' → I s') {s : σ} (h : m.Reachable s) : I s := by
  obtain ⟨as, has⟩ := h
  exact runFrom_induction hstep h0 has

/-! ## Properties of every state and of every step -/

theorem always_nil {P : σ → Prop} : m.Always [] P ↔ P m.init := by
  constructor
  · intro h
    exact h [] (List.prefix_refl _) _ rfl
  · intro h pre hpre s hs
    rw [List.prefix_nil.mp hpre, run_nil, Option.some.injEq] at hs
    exact hs ▸ h

theorem always_concat {P : σ → Prop} {as : List α} {a : α} {s' : σ}
    (hrun : m.run (as ++ [a]) = some s') :
    m.Always (as ++ [a]) P ↔ m.Always as P ∧ P s' := by
  constructor
  · intro h
    exact ⟨fun pre hpre => h pre (hpre.trans (List.prefix_append _ _)),
      h _ (List.prefix_refl _) _ hrun⟩
  · rintro ⟨h, hs'⟩ pre hpre s hs
    rcases List.prefix_concat_iff.mp hpre with heq | hpre'
    · subst heq
      rw [hrun, Option.some.injEq] at hs
      exact hs ▸ hs'
    · exact h pre hpre' s hs

theorem eachStep_nil {C : σ → α → Prop} : m.EachStep [] C := by
  intro pre a h
  simp at h

theorem eachStep_concat {C : σ → α → Prop} {as : List α} {a : α} {s : σ}
    (hrun : m.run as = some s) :
    m.EachStep (as ++ [a]) C ↔ m.EachStep as C ∧ C s a := by
  constructor
  · intro h
    exact ⟨fun pre b hpre => h pre b (hpre.trans (List.prefix_append _ _)),
      h as a (List.prefix_refl _) s hrun⟩
  · rintro ⟨h, hsa⟩ pre b hpre t ht
    rcases List.prefix_concat_iff.mp hpre with heq | hpre'
    · obtain ⟨rfl, hb⟩ := List.append_inj' heq rfl
      cases hb
      rw [hrun, Option.some.injEq] at ht
      exact ht ▸ hsa
    · exact h pre b hpre' t ht

theorem Always.mono {P Q : σ → Prop} {as : List α} (h : m.Always as P) (hPQ : ∀ s, P s → Q s) :
    m.Always as Q := fun pre hpre s hs => hPQ s (h pre hpre s hs)

/-- If a property never comes back once it is lost, then it always holds along a run at
whose end it holds. -/
theorem always_of_last {P : σ → Prop}
    (hlost : ∀ {s a s'}, m.Reachable s → ¬ P s → m.step s a = some s' → ¬ P s') :
    ∀ {as : List α} {s : σ}, m.run as = some s → P s → m.Always as P := by
  intro as
  induction as using List.reverseRecOn with
  | nil =>
      intro s hrun hs
      cases hrun
      exact always_nil.mpr hs
  | append_singleton as a ih =>
      intro s hrun hs
      obtain ⟨t, ht, hta⟩ := run_concat_eq_some.mp hrun
      refine (always_concat hrun).mpr ⟨ih ht ?_, hs⟩
      by_contra hn
      exact hlost ⟨as, ht⟩ hn hta hs

/-- What always holds along a run holds along the rest of it from any state. -/
theorem Always.of_runFrom {P : σ → Prop} {as bs : List α} (h : m.Always (as ++ bs) P) {s t : σ}
    (hs : m.run as = some s) {pre : List α} (hpre : pre <+: bs) (ht : m.runFrom s pre = some t) :
    P t := by
  refine h (as ++ pre) ((List.prefix_append_right_inj as).mpr hpre) t ?_
  rw [run_append, hs]
  exact ht

/-- The exact-condition rule.  Suppose a step from a reachable state where `P`
holds leads to a state where `P` holds just when the step meets `C`.  Then along
a run `P` always holds just when every step meets `C`. -/
theorem always_iff_eachStep {P : σ → Prop} {C : σ → α → Prop} (h0 : P m.init)
    (hstep : ∀ {s a s'}, m.Reachable s → P s → m.step s a = some s' → (P s' ↔ C s a)) :
    ∀ {as : List α} {s : σ}, m.run as = some s → (m.Always as P ↔ m.EachStep as C) := by
  intro as
  induction as using List.reverseRecOn with
  | nil =>
      intro _ _
      exact ⟨fun _ => eachStep_nil, fun _ => always_nil.mpr h0⟩
  | append_singleton as a ih =>
      intro s' hrun
      obtain ⟨s, hs, hsa⟩ := run_concat_eq_some.mp hrun
      rw [always_concat hrun, eachStep_concat hs, ih hs]
      refine and_congr_right fun hC => ?_
      have hP : P s := (ih hs).mpr hC as (List.prefix_refl _) s hs
      exact hstep ⟨as, hs⟩ hP hsa

/-- What the steps that meet `C` keep always holds along a run of such steps. -/
theorem always_of_eachStep {I : σ → Prop} {C : σ → α → Prop} (h0 : I m.init)
    (hkeep : ∀ {s a s'}, I s → m.step s a = some s' → C s a → I s') :
    ∀ {as : List α} {s : σ}, m.run as = some s → m.EachStep as C → m.Always as I := by
  intro as
  induction as using List.reverseRecOn with
  | nil => exact fun _ _ => always_nil.mpr h0
  | append_singleton as a ih =>
      intro s' hrun hC
      obtain ⟨s, hs, hsa⟩ := run_concat_eq_some.mp hrun
      obtain ⟨hpre, hlast⟩ := (eachStep_concat hs).mp hC
      have hI := ih hs hpre
      exact (always_concat hrun).mpr ⟨hI, hkeep (hI as (List.prefix_refl _) s hs) hsa hlast⟩

/-- The exact-condition rule with an invariant.  Steps that meet `C` keep `I`,
and a step from a state with `I` that does not meet `C` breaks `P`. -/
theorem always_iff_eachStep_of_invariant {P I : σ → Prop} {C : σ → α → Prop} (h0 : I m.init)
    (hIP : ∀ {s}, I s → P s) (hkeep : ∀ {s a s'}, I s → m.step s a = some s' → C s a → I s')
    (hbreak : ∀ {s a s'}, I s → m.step s a = some s' → ¬ C s a → ¬ P s') :
    ∀ {as : List α} {s : σ}, m.run as = some s → (m.Always as P ↔ m.EachStep as C) := by
  intro as s hrun
  constructor
  · intro h
    induction as using List.reverseRecOn generalizing s with
    | nil => exact eachStep_nil
    | append_singleton as a ih =>
        obtain ⟨t, ht, hta⟩ := run_concat_eq_some.mp hrun
        obtain ⟨hpre, hlast⟩ := (always_concat hrun).mp h
        have hC := ih ht hpre
        have hI : I t := always_of_eachStep h0 hkeep ht hC as (List.prefix_refl _) t ht
        exact (eachStep_concat ht).mpr ⟨hC, by_contra fun hn => hbreak hI hta hn hlast⟩
  · intro hC
    exact (always_of_eachStep h0 hkeep hrun hC).mono fun _ => hIP

/-! ## Simulations -/

/-- Seen through `f`, a step of `m` is no step or a step of `n`. -/
structure Simulates {τ : Type w} {β : Type x} (m : Machine σ α) (n : Machine τ β) (f : σ → τ) :
    Prop where
  /-- The initial states. -/
  init : f m.init = n.init
  /-- One step from a reachable state. -/
  step : ∀ {s a s'}, m.Reachable s → m.step s a = some s' →
    f s' = f s ∨ ∃ b, n.step (f s) b = some (f s')

/-- What is reachable stays reachable. -/
theorem Simulates.reachable {τ : Type w} {β : Type x} {n : Machine τ β} {f : σ → τ}
    (h : Simulates m n f) {s : σ} (hs : m.Reachable s) : n.Reachable (f s) := by
  obtain ⟨as, has⟩ := hs
  induction as using List.reverseRecOn generalizing s with
  | nil =>
      rw [run_nil, Option.some.injEq] at has
      exact has ▸ h.init ▸ Reachable.init
  | append_singleton as a ih =>
      obtain ⟨t, ht, hta⟩ := run_concat_eq_some.mp has
      rcases h.step ⟨as, ht⟩ hta with heq | ⟨b, hb⟩
      · exact heq ▸ ih ht
      · exact (ih ht).step hb

end Machine
