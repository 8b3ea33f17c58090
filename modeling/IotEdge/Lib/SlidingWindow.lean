import Mathlib

/-!
# Sliding windows

Items arrive in the order of their times.  The window over them holds the longest run of the
latest items that is not longer than its capacity and does not reach back further than its span.

`push` makes a window from the window before it: an item is added, what is too old is dropped
from the front, and then what is too much.  `IsWindow.push` says that nothing else has to be
looked at, since what was dropped once never fits again.
-/

namespace SlidingWindow

variable {α : Type*}

/-! ## Dropping from the front -/

/-- A suffix without an item to drop stays a suffix. -/
theorem suffix_dropWhile {p : α → Bool} {w l : List α} (h : w <:+ l) (hw : ∀ a ∈ w, p a = false) :
    w <:+ l.dropWhile p := by
  obtain ⟨before, rfl⟩ := h
  rw [List.dropWhile_append]
  split
  next =>
    rw [show w.dropWhile p = w from List.dropWhile_eq_self_iff.mpr fun hpos => by
      simpa using hw _ (List.getElem_mem hpos)]
  next => exact List.suffix_append _ _

/-- A suffix that is not too long stays a suffix. -/
theorem suffix_drop {w l : List α} {n : ℕ} (h : w <:+ l) (hn : w.length ≤ n) :
    w <:+ l.drop (l.length - n) := by
  obtain ⟨before, rfl⟩ := h
  have hlength : (before ++ w).length - n ≤ before.length := by
    rw [List.length_append]
    omega
  rw [List.drop_append_of_le_length hlength]
  exact List.suffix_append _ _

/-- In front of the first item that stays there is nothing that would stay, if the items are
sorted. -/
theorem of_mem_dropWhile {p : α → Bool} {l : List α}
    (hsorted : l.Pairwise fun a b => p b = true → p a = true) :
    ∀ a ∈ l.dropWhile p, p a = false := by
  induction l with
  | nil => exact fun a h => absurd h List.not_mem_nil
  | cons b l ih =>
      obtain ⟨hb, hl⟩ := List.pairwise_cons.mp hsorted
      rw [List.dropWhile_cons]
      split
      next => exact ih hl
      next hstays =>
        intro a ha
        rw [Bool.not_eq_true] at hstays
        rcases List.mem_cons.mp ha with rfl | ha
        · exact hstays
        · exact Bool.eq_false_iff.mpr fun hpa => by
            rw [hb a ha hpa] at hstays
            cases hstays

/-! ## Windows -/

variable {β : Type*} [AddCommGroup β] [LinearOrder β] [IsOrderedAddMonoid β]
variable (time : α → β) (capacity : ℕ) (span : β)

/-- The items do not take more than the capacity, and reach back from the latest item for no more
than the span. -/
structure Fits (items kept : List α) : Prop where
  length_le : kept.length ≤ capacity
  time_le : ∀ last ∈ items.getLast?, ∀ a ∈ kept, time last - time a ≤ span

/-- The longest suffix of the items that fits. -/
structure IsWindow (items kept : List α) : Prop where
  suffix : kept <:+ items
  fits : Fits time capacity span items kept
  longest : ∀ {w}, w <:+ items → Fits time capacity span items w → w <:+ kept

/-- An item arrives. -/
def push (kept : List α) (a : α) : List α :=
  let recent := (kept ++ [a]).dropWhile fun b => span < time a - time b
  recent.drop (recent.length - capacity)

variable {time capacity span} {items kept : List α} {a : α}

theorem isWindow_nil : IsWindow time capacity span ([] : List α) [] where
  suffix := List.suffix_refl []
  fits := ⟨Nat.zero_le capacity, by simp⟩
  longest := fun h _ => h

/-- What fits behind an item fitted before it. -/
theorem Fits.of_concat (hsorted : (items ++ [a]).Pairwise fun b c => time b ≤ time c) {w : List α}
    (h : Fits time capacity span (items ++ [a]) (w ++ [a])) : Fits time capacity span items w where
  length_le := by
    have hlength := h.length_le
    rw [List.length_append] at hlength
    omega
  time_le := fun last hlast b hb => by
    have hle : time last ≤ time a := (List.pairwise_append.mp hsorted).2.2 last
      (List.mem_of_getLast? hlast) a (List.mem_singleton_self a)
    calc time last - time b ≤ time a - time b := sub_le_sub_right hle _
      _ ≤ span := h.time_le a List.getLast?_concat b (List.mem_append_left _ hb)

/-- The window behind an item is made from the window before it. -/
theorem IsWindow.push (hsorted : (items ++ [a]).Pairwise fun b c => time b ≤ time c)
    (h : IsWindow time capacity span items kept) :
    IsWindow time capacity span (items ++ [a]) (push time capacity span kept a) := by
  have hkept : kept ++ [a] <:+ items ++ [a] := by
    obtain ⟨before, rfl⟩ := h.suffix
    exact ⟨before, (List.append_assoc ..).symm⟩
  have hrecent : (kept ++ [a]).Pairwise fun b c =>
      decide (span < time a - time c) = true → decide (span < time a - time b) = true := by
    refine (hsorted.sublist hkept.sublist).imp fun {b c} hbc hc => ?_
    rw [decide_eq_true_iff] at hc ⊢
    exact hc.trans_le (sub_le_sub_left hbc _)
  refine ⟨?_, ⟨?_, ?_⟩, ?_⟩
  · exact (List.drop_suffix _ _).trans ((List.dropWhile_suffix _).trans hkept)
  · rw [SlidingWindow.push, List.length_drop]
    omega
  · intro last hlast b hb
    rw [List.getLast?_concat, Option.mem_some_iff] at hlast
    subst hlast
    have hstays := of_mem_dropWhile hrecent b (List.mem_of_mem_drop hb)
    exact not_lt.mp (of_decide_eq_false hstays)
  · intro w hw hfits
    rcases List.eq_nil_or_concat' w with rfl | ⟨w, b, rfl⟩
    · exact List.nil_suffix
    · obtain ⟨before, hsplit⟩ := hw
      rw [← List.append_assoc] at hsplit
      obtain ⟨hitems, hb⟩ := List.append_inj' hsplit rfl
      cases hb
      have hw : w <:+ kept := h.longest ⟨before, hitems⟩ (hfits.of_concat hsorted)
      have hlonger : w ++ [a] <:+ kept ++ [a] := by
        obtain ⟨before', rfl⟩ := hw
        exact ⟨before', (List.append_assoc ..).symm⟩
      refine suffix_drop (suffix_dropWhile hlonger fun b hb => ?_) hfits.length_le
      exact decide_eq_false (not_lt.mpr (hfits.time_le a List.getLast?_concat b hb))

end SlidingWindow
