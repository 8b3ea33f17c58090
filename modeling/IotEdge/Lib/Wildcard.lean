import Mathlib

/-!
# Wildcards over levels

A pattern is a list of levels, and so is what it is held against.  A level of a pattern is
a given one, any one, or, as the last, all that is left.

`Matches` says what fits.  Without a wildcard for the rest a pattern has to be as long as
the word and fit level by level (`matches_iff_zip`), and with it the pattern before it has
to fit a prefix (`matches_rest_iff`).

The levels are often parts of a text that a separator splits.  `mem_splitOn_iff` and
`exists_mem_splitOn` say which parts these are.
-/

namespace Wildcard

variable {α : Type*}

/-- A level of a pattern. -/
inductive Level (α : Type*) where
  | exactly (a : α)
  | one
  | rest
deriving DecidableEq, Repr

/-- The single level `a` fits. -/
def Level.Fits (a : α) : Level α → Prop
  | exactly b => a = b
  | one => True
  | rest => False

/-- The word fits the pattern. -/
inductive Matches : List (Level α) → List α → Prop where
  | nil : Matches [] []
  | exactly (a : α) {p : List (Level α)} {w : List α} :
      Matches p w → Matches (.exactly a :: p) (a :: w)
  | one (a : α) {p : List (Level α)} {w : List α} :
      Matches p w → Matches (.one :: p) (a :: w)
  | rest (w : List α) : Matches [.rest] w

/-! ## Level by level -/

theorem matches_cons_iff {l : Level α} {p : List (Level α)} {w : List α} (hl : l ≠ .rest) :
    Matches (l :: p) w ↔ ∃ a w', w = a :: w' ∧ l.Fits a ∧ Matches p w' := by
  constructor
  · intro h
    cases h with
    | exactly a h => exact ⟨a, _, rfl, rfl, h⟩
    | one a h => exact ⟨a, _, rfl, trivial, h⟩
    | rest w => exact absurd rfl hl
  · rintro ⟨a, w', rfl, hfits, h⟩
    cases l with
    | exactly b => cases hfits; exact .exactly a h
    | one => exact .one a h
    | rest => exact absurd rfl hl

theorem matches_nil_iff {w : List α} : Matches [] w ↔ w = [] := by
  constructor
  · intro h
    cases h
    rfl
  · rintro rfl
    exact .nil

/-- A pattern without a wildcard for the rest fits level by level. -/
theorem matches_iff_forall₂ {p : List (Level α)} (hp : ∀ l ∈ p, l ≠ .rest) {w : List α} :
    Matches p w ↔ List.Forall₂ (fun l a => l.Fits a) p w := by
  induction p generalizing w with
  | nil => rw [matches_nil_iff, List.forall₂_nil_left_iff]
  | cons l p ih =>
      obtain ⟨hl, hp⟩ := List.forall_mem_cons.mp hp
      rw [matches_cons_iff hl, List.forall₂_cons_left_iff]
      constructor
      · rintro ⟨a, w', rfl, hfits, h⟩
        exact ⟨a, w', hfits, (ih hp).mp h, rfl⟩
      · rintro ⟨a, w', hfits, h, rfl⟩
        exact ⟨a, w', rfl, hfits, (ih hp).mpr h⟩

/-- The same, in terms of the lengths and of the pairs. -/
theorem matches_iff_zip {p : List (Level α)} (hp : ∀ l ∈ p, l ≠ .rest) {w : List α} :
    Matches p w ↔ p.length = w.length ∧ ∀ x ∈ p.zip w, x.1.Fits x.2 := by
  rw [matches_iff_forall₂ hp, List.forall₂_iff_zip]
  constructor
  · rintro ⟨hlength, h⟩
    exact ⟨hlength, fun x hx => h hx⟩
  · rintro ⟨hlength, h⟩
    exact ⟨hlength, fun hx => h _ hx⟩

/-- With a wildcard for the rest, the levels before it fit the start of the word. -/
theorem matches_rest_iff {p : List (Level α)} (hp : ∀ l ∈ p, l ≠ .rest) {w : List α} :
    Matches (p ++ [.rest]) w ↔ p.length ≤ w.length ∧ ∀ x ∈ p.zip w, x.1.Fits x.2 := by
  induction p generalizing w with
  | nil =>
      constructor
      · intro _
        exact ⟨Nat.zero_le _, fun x hx => by cases hx⟩
      · intro _
        exact .rest w
  | cons l p ih =>
      obtain ⟨hl, hp⟩ := List.forall_mem_cons.mp hp
      rw [List.cons_append, matches_cons_iff hl]
      cases w with
      | nil =>
          constructor
          · rintro ⟨a, w', heq, -⟩
            cases heq
          · rintro ⟨hlength, -⟩
            exact absurd hlength (Nat.not_succ_le_zero _)
      | cons a w =>
          rw [List.zip_cons_cons, List.forall_mem_cons, List.length_cons, List.length_cons,
            Nat.succ_le_succ_iff]
          constructor
          · rintro ⟨b, w', heq, hfits, h⟩
            cases heq
            obtain ⟨hlength, hzip⟩ := (ih hp).mp h
            exact ⟨hlength, hfits, hzip⟩
          · rintro ⟨hlength, hfits, hzip⟩
            exact ⟨a, w, rfl, hfits, (ih hp).mpr ⟨hlength, hzip⟩⟩

/-- Without wildcards only the word itself fits. -/
theorem matches_map_exactly_iff {v w : List α} : Matches (v.map .exactly) w ↔ w = v := by
  induction v generalizing w with
  | nil => exact matches_nil_iff
  | cons a v ih =>
      rw [List.map_cons, matches_cons_iff (by rintro ⟨⟩)]
      constructor
      · rintro ⟨b, w', rfl, rfl, h⟩
        rw [ih.mp h]
      · rintro rfl
        exact ⟨a, v, rfl, rfl, ih.mpr rfl⟩

/-! ## Levels of a text -/

variable {s : α}

/-- The part behind the last separator. -/
theorem exists_last_part (xs : List α) :
    ∃ u a, xs = u ++ a ∧ s ∉ a ∧ (u = [] ∨ ∃ u', u = u' ++ [s]) := by
  induction xs using List.reverseRecOn with
  | nil => exact ⟨[], [], rfl, List.not_mem_nil, .inl rfl⟩
  | append_singleton xs c ih =>
      rcases eq_or_ne c s with rfl | hc
      · exact ⟨xs ++ [c], [], (List.append_nil _).symm, List.not_mem_nil, .inr ⟨xs, rfl⟩⟩
      · obtain ⟨u, a, rfl, ha, hu⟩ := ih
        refine ⟨u, a ++ [c], List.append_assoc _ _ _, ?_, hu⟩
        intro hmem
        rcases List.mem_append.mp hmem with hmem | hmem
        · exact ha hmem
        · exact hc (List.mem_singleton.mp hmem).symm

variable [DecidableEq α]

/-- The part before the first separator. -/
theorem exists_first_part (xs : List α) :
    ∃ b v, xs = b ++ v ∧ s ∉ b ∧ (v = [] ∨ ∃ v', v = s :: v') := by
  by_cases hs : s ∈ xs
  · obtain ⟨b, v, rfl, hb⟩ := List.eq_append_cons_of_mem hs
    exact ⟨b, s :: v, rfl, hb, .inr ⟨v, rfl⟩⟩
  · exact ⟨xs, [], (List.append_nil _).symm, hs, .inl rfl⟩

/-- A level is a part without a separator that lies between two, or at an end. -/
theorem mem_splitOn_iff {xs l : List α} : l ∈ xs.splitOn s ↔ s ∉ l ∧ ∃ u v, xs = u ++ l ++ v ∧
    (u = [] ∨ ∃ u', u = u' ++ [s]) ∧ (v = [] ∨ ∃ v', v = s :: v') := by
  constructor
  · intro hl
    induction hn : xs.length using Nat.strong_induction_on generalizing xs with
    | _ n ih =>
        obtain ⟨b, v, rfl, hb, rfl | ⟨v', rfl⟩⟩ := exists_first_part (s := s) xs
        · rw [List.append_nil, List.splitOn_eq_singleton hb, List.mem_singleton] at hl
          subst hl
          exact ⟨hb, [], [], rfl, .inl rfl, .inl rfl⟩
        · rw [List.splitOn_append_cons_self_of_not_mem hb] at hl
          rcases List.mem_cons.mp hl with rfl | hl
          · exact ⟨hb, [], s :: v', rfl, .inl rfl, .inr ⟨v', rfl⟩⟩
          · have hless : v'.length < n := by
              rw [← hn, List.length_append, List.length_cons]
              omega
            obtain ⟨hmem, u, v, rfl, hu, hv⟩ := ih _ hless hl rfl
            refine ⟨hmem, b ++ s :: u, v, by simp, .inr ?_, hv⟩
            rcases hu with rfl | ⟨u', rfl⟩
            · exact ⟨b, rfl⟩
            · exact ⟨b ++ s :: u', by simp⟩
  · rintro ⟨hl, u, v, rfl, hu, hv⟩
    have hfirst : l ∈ (l ++ v).splitOn s := by
      rcases hv with rfl | ⟨v', rfl⟩
      · rw [List.append_nil, List.splitOn_eq_singleton hl]
        exact List.mem_singleton_self l
      · rw [List.splitOn_append_cons_self_of_not_mem hl]
        exact List.mem_cons_self
    rcases hu with rfl | ⟨u', rfl⟩
    · exact hfirst
    · rw [List.append_assoc, List.append_assoc, List.singleton_append,
        List.splitOn_append_cons_self]
      exact List.mem_append_right _ hfirst

/-- Every other character of a text is in one of its levels. -/
theorem exists_mem_splitOn {u v : List α} {c : α} (hc : c ≠ s) :
    ∃ u' a b v', u = u' ++ a ∧ v = b ++ v' ∧ (u' = [] ∨ ∃ u'', u' = u'' ++ [s]) ∧
      (v' = [] ∨ ∃ v'', v' = s :: v'') ∧ a ++ c :: b ∈ (u ++ c :: v).splitOn s := by
  obtain ⟨u', a, rfl, ha, hu⟩ := exists_last_part (s := s) u
  obtain ⟨b, v', rfl, hb, hv⟩ := exists_first_part (s := s) v
  refine ⟨u', a, b, v', rfl, rfl, hu, hv, mem_splitOn_iff.mpr ⟨?_, u', v', by simp, hu, hv⟩⟩
  intro hmem
  rcases List.mem_append.mp hmem with hmem | hmem
  · exact ha hmem
  · rcases List.mem_cons.mp hmem with heq | hmem
    · exact hc heq.symm
    · exact hb hmem

/-- A character other than the separator is in the text if it is in a level. -/
theorem mem_iff_exists_mem_splitOn {xs : List α} {c : α} (hc : c ≠ s) :
    c ∈ xs ↔ ∃ l ∈ xs.splitOn s, c ∈ l := by
  constructor
  · intro hmem
    obtain ⟨u, v, rfl⟩ := List.append_of_mem hmem
    obtain ⟨u', a, b, v', -, -, -, -, h⟩ := exists_mem_splitOn (u := u) (v := v) hc
    exact ⟨_, h, List.mem_append_right _ List.mem_cons_self⟩
  · rintro ⟨l, hl, hmem⟩
    obtain ⟨-, u, v, rfl, -⟩ := mem_splitOn_iff.mp hl
    exact List.mem_append_left _ (List.mem_append_right _ hmem)

/-- Two texts with the same levels are the same. -/
theorem splitOn_inj {xs ys : List α} : xs.splitOn s = ys.splitOn s ↔ xs = ys := by
  constructor
  · intro h
    rw [← @List.intercalate_splitOn _ xs _ _ s, h, List.intercalate_splitOn]
  · rintro rfl
    rfl

end Wildcard
