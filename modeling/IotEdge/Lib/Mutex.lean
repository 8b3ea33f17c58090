import Mathlib.Logic.Function.Basic

/-!
# Mutexes

A mutex is given by its owner, if it has one, and by who is in the critical section.
The two are kept apart, since a thread may end inside the section.  Then the mutex
stays with a thread that is gone.

`Mutex.Act` is what a step of one thread does.  `Mutex.Respected` says that whoever is in
the section is the owner, `Mutex.Live` that a thread that owns the mutex is in the
section.  All steps keep both (`Act.respected`, `Act.live`).  A thread that ends keeps
the first (`Respected.ends`), and the second for itself only outside the section.
-/

universe u

namespace Mutex

variable {τ : Type u} [DecidableEq τ]

/-- What a step of `t` does to the owner, and to whether `t` is in the section. -/
inductive Act (t : τ) : Option τ → Bool → Option τ → Bool → Prop where
  | frame {owner : Option τ} {inside : Bool} : Act t owner inside owner inside
  | acquire {inside : Bool} : Act t none inside (some t) true
  | release {owner : Option τ} : Act t owner true none false

/-- Whoever is in the section is the owner. -/
def Respected (owner : Option τ) (inside : τ → Bool) : Prop :=
  ∀ t, inside t = true → owner = some t

/-- If `t` is the owner, it is in the section. -/
def Live (owner : Option τ) (inside : τ → Bool) (t : τ) : Prop :=
  owner = some t → inside t = true

variable {owner owner' : Option τ} {inside : τ → Bool} {t : τ} {b : Bool}

theorem Act.respected (ha : Act t owner (inside t) owner' b) (h : Respected owner inside) :
    Respected owner' (Function.update inside t b) := by
  intro u hu
  rcases eq_or_ne u t with rfl | hne
  · rw [Function.update_self] at hu
    generalize hin : inside u = before at ha
    cases ha with
    | frame => exact h u (hin.trans hu)
    | acquire => rfl
    | release => cases hu
  · rw [Function.update_of_ne hne] at hu
    have howner := h u hu
    generalize hin : inside t = before at ha
    cases ha with
    | frame => exact howner
    | acquire => cases howner
    | release => exact absurd (Option.some.inj (howner.symm.trans (h t hin))) hne

theorem Act.live (ha : Act t owner (inside t) owner' b) {u : τ} (h : Live owner inside u) :
    Live owner' (Function.update inside t b) u := by
  intro howner
  generalize hin : inside t = before at ha
  cases ha with
  | frame =>
      rw [← hin, Function.update_eq_self]
      exact h howner
  | acquire =>
      cases howner
      exact Function.update_self ..
  | release => cases howner

/-- A thread that ends leaves the section. -/
theorem Respected.ends (h : Respected owner inside) (t : τ) :
    Respected owner (Function.update inside t false) := by
  intro u hu
  rcases eq_or_ne u t with rfl | hne
  · rw [Function.update_self] at hu
    cases hu
  · rw [Function.update_of_ne hne] at hu
    exact h u hu

theorem Live.ends_of_ne {u : τ} (h : Live owner inside u) (hne : u ≠ t) :
    Live owner (Function.update inside t false) u := by
  intro howner
  rw [Function.update_of_ne hne]
  exact h howner

/-- A thread that owns the mutex and has left the section never gives it back. -/
theorem Act.not_live (ha : Act t owner (inside t) owner' b) (h : Respected owner inside)
    {u : τ} (hu : ¬ Live owner inside u) :
    ¬ Live owner' (Function.update inside t b) u := by
  rw [Live, Classical.not_imp] at hu ⊢
  obtain ⟨howner, hu⟩ := hu
  generalize hin : inside t = before at ha
  cases ha with
  | frame =>
      rw [← hin, Function.update_eq_self]
      exact ⟨howner, hu⟩
  | acquire => cases howner
  | release =>
      have heq := Option.some.inj (howner.symm.trans (h t hin))
      exact absurd (heq ▸ hin) hu

/-- A thread that ends keeps the mutex unless it is outside the section. -/
theorem Live.ends_iff (h : Live owner inside t) (hr : Respected owner inside) :
    Live owner (Function.update inside t false) t ↔ inside t = false := by
  rw [Live, Function.update_self]
  constructor
  · intro hlive
    by_contra hin
    exact Bool.false_ne_true (hlive (hr t (Bool.not_eq_false _ ▸ hin)))
  · intro hin howner
    exact hin.symm.trans (h howner)

/-- A thread that has ended with the mutex keeps it. -/
theorem not_live_ends {u : τ} (hu : ¬ Live owner inside u) :
    ¬ Live owner (Function.update inside t false) u := by
  rw [Live, Classical.not_imp] at hu ⊢
  refine ⟨hu.1, fun hin => hu.2 ?_⟩
  rcases eq_or_ne u t with rfl | hne
  · rw [Function.update_self] at hin
    cases hin
  · rwa [Function.update_of_ne hne] at hin

end Mutex
