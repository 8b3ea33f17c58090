import Mathlib.Logic.Function.Basic
import Mathlib.Data.List.Induction
import Mathlib.Data.List.Nodup

/-!
# Bounded maps

A map with room for `cap` keys, filled on a first-come basis.  Inserting a key
that is stored overwrites its value.  Inserting a new one takes a free place, and
does nothing when there is none.

`keys_ofList` and `value_ofList` say what a sequence of insertions leaves behind:
the first `cap` distinct keys, each with its last value.
-/

universe u v

variable {κ : Type u} {υ : Type v}

section Lists

variable [DecidableEq κ]

/-- The value of the last pair with the key `k`. -/
def List.lastValue (ops : List (κ × υ)) (k : κ) : Option υ := ops.reverse.lookup k

theorem List.lastValue_concat (ops : List (κ × υ)) (k : κ) (v : υ) (k' : κ) :
    (ops ++ [(k, v)]).lastValue k' = if k' = k then some v else ops.lastValue k' := by
  simp only [lastValue, reverse_append, reverse_singleton, singleton_append]
  by_cases h : k' = k
  · rw [if_pos h, h, lookup_cons_self]
  · rw [if_neg h, lookup_cons, beq_false_of_ne h]

theorem List.eraseDups_concat (ks : List κ) (k : κ) :
    (ks ++ [k]).eraseDups = if k ∈ ks then ks.eraseDups else ks.eraseDups ++ [k] := by
  rw [eraseDups_append]
  by_cases h : k ∈ ks
  · simp [h, removeAll]
  · simp [h, removeAll, eraseDups_cons]

/-- Adding one element to the first `cap` of a list, or to the whole list, gives
the same first `cap`. -/
theorem List.take_insert_take (cap : Nat) (ks : List κ) (k : κ) :
    (if k ∈ ks.take cap then ks.take cap else ks.take cap ++ [k]).take cap =
      (if k ∈ ks then ks else ks ++ [k]).take cap := by
  rcases Nat.lt_or_ge ks.length cap with hroom | hfull
  · rw [take_of_length_le (Nat.le_of_lt hroom)]
  · have hlen : (ks.take cap).length = cap := by rw [length_take, Nat.min_eq_left hfull]
    calc (if k ∈ ks.take cap then ks.take cap else ks.take cap ++ [k]).take cap
        = ks.take cap := by
          split
          next => rw [take_take, Nat.min_self]
          next => rw [take_append_of_le_length (Nat.le_of_eq hlen.symm), take_take, Nat.min_self]
      _ = (if k ∈ ks then ks else ks ++ [k]).take cap := by
          split
          next => rfl
          next => rw [take_append_of_le_length hfull]

end Lists

/-- A map with at most `cap` keys. -/
structure BoundedMap (κ : Type u) (υ : Type v) (cap : Nat) where
  /-- The keys, in the order they were first inserted. -/
  keys : List κ
  /-- The value of each key. -/
  value : κ → Option υ
  /-- No key is there twice. -/
  nodup : keys.Nodup
  /-- There is room for every key. -/
  length_le : keys.length ≤ cap
  /-- Exactly the keys have a value. -/
  isSome_iff : ∀ k, (value k).isSome ↔ k ∈ keys

namespace BoundedMap

variable {cap : Nat}

/-- The map without keys. -/
def empty : BoundedMap κ υ cap where
  keys := []
  value := fun _ => none
  nodup := List.nodup_nil
  length_le := Nat.zero_le _
  isSome_iff := by simp

@[simp] theorem keys_empty : (empty : BoundedMap κ υ cap).keys = [] := rfl

@[simp] theorem value_empty (k : κ) : (empty : BoundedMap κ υ cap).value k = none := rfl

theorem value_eq_none {m : BoundedMap κ υ cap} {k : κ} (h : k ∉ m.keys) : m.value k = none := by
  rw [← Option.not_isSome_iff_eq_none, m.isSome_iff]
  exact h

variable [DecidableEq κ]

/-- Whether a value can be stored for `k`. -/
def HasPlace (m : BoundedMap κ υ cap) (k : κ) : Prop := k ∈ m.keys ∨ m.keys.length < cap

instance (m : BoundedMap κ υ cap) (k : κ) : Decidable (m.HasPlace k) :=
  inferInstanceAs (Decidable (_ ∨ _))

/-- The keys after a value was stored for `k`. -/
def keysWith (m : BoundedMap κ υ cap) (k : κ) : List κ :=
  if k ∈ m.keys then m.keys else m.keys ++ [k]

theorem mem_keysWith {m : BoundedMap κ υ cap} {k k' : κ} :
    k' ∈ m.keysWith k ↔ k' = k ∨ k' ∈ m.keys := by
  rw [keysWith]
  split
  next hk => exact ⟨.inr, fun h => h.elim (fun heq => heq ▸ hk) id⟩
  next hk => rw [List.mem_append, List.mem_singleton, or_comm]

theorem nodup_keysWith (m : BoundedMap κ υ cap) (k : κ) : (m.keysWith k).Nodup := by
  rw [keysWith]
  split
  next => exact m.nodup
  next hk =>
    rw [← List.concat_eq_append]
    exact m.nodup.concat hk

theorem length_keysWith_le {m : BoundedMap κ υ cap} {k : κ} (h : m.HasPlace k) :
    (m.keysWith k).length ≤ cap := by
  rw [keysWith]
  split
  next => exact m.length_le
  next hk =>
    rw [List.length_append, List.length_singleton]
    exact h.resolve_left hk

/-- Store the value `v` for `k`, if there is a place for it. -/
def insert (m : BoundedMap κ υ cap) (k : κ) (v : υ) : BoundedMap κ υ cap :=
  if h : m.HasPlace k then
    { keys := m.keysWith k
      value := Function.update m.value k (some v)
      nodup := m.nodup_keysWith k
      length_le := length_keysWith_le h
      isSome_iff := fun k' => by
        rw [mem_keysWith]
        by_cases heq : k' = k
        · simp [heq]
        · simp [heq, m.isSome_iff] }
  else m

/-- Insert the pairs of a list, in order. -/
def ofList (ops : List (κ × υ)) : BoundedMap κ υ cap :=
  ops.foldl (fun m op => m.insert op.1 op.2) empty

/-! ## One insertion -/

/-- The keys after an insertion, whether or not there is a place. -/
theorem keys_insert (m : BoundedMap κ υ cap) (k : κ) (v : υ) :
    (m.insert k v).keys = (m.keysWith k).take cap := by
  rw [insert]
  split
  next h => exact (List.take_of_length_le (length_keysWith_le h)).symm
  next h =>
    obtain ⟨hk, hfull⟩ := not_or.mp h
    rw [keysWith, if_neg hk, List.take_append_of_le_length (Nat.le_of_not_lt hfull),
      List.take_of_length_le m.length_le]

theorem value_insert {m : BoundedMap κ υ cap} {k : κ} (h : m.HasPlace k) (v : υ) :
    (m.insert k v).value = Function.update m.value k (some v) := by
  rw [insert, dif_pos h]

theorem insert_of_not_hasPlace {m : BoundedMap κ υ cap} {k : κ} (h : ¬ m.HasPlace k) (v : υ) :
    m.insert k v = m := by
  rw [insert, dif_neg h]

/-! ## Sequences of insertions -/

theorem ofList_concat (ops : List (κ × υ)) (k : κ) (v : υ) :
    (ofList (ops ++ [(k, v)]) : BoundedMap κ υ cap) = (ofList ops).insert k v := by
  simp [ofList]

/-- The keys are the first `cap` distinct keys that were inserted. -/
theorem keys_ofList (ops : List (κ × υ)) :
    (ofList ops : BoundedMap κ υ cap).keys = (ops.map Prod.fst).eraseDups.take cap := by
  induction ops using List.reverseRecOn with
  | nil => simp [ofList]
  | append_singleton ops op ih =>
      obtain ⟨k, v⟩ := op
      rw [ofList_concat, keys_insert, keysWith, ih, List.take_insert_take, List.map_append,
        List.map_singleton, List.eraseDups_concat]
      simp only [List.mem_eraseDups]

/-- A stored key has the last value that was inserted for it. -/
theorem value_ofList (ops : List (κ × υ)) {k : κ}
    (hk : k ∈ (ofList ops : BoundedMap κ υ cap).keys) :
    (ofList ops : BoundedMap κ υ cap).value k = ops.lastValue k := by
  induction ops using List.reverseRecOn with
  | nil => cases hk
  | append_singleton ops op ih =>
      obtain ⟨k₀, v⟩ := op
      rw [ofList_concat] at hk ⊢
      rw [List.lastValue_concat]
      by_cases hplace : (ofList ops : BoundedMap κ υ cap).HasPlace k₀
      · rw [keys_insert, List.take_of_length_le (length_keysWith_le hplace), mem_keysWith] at hk
        rw [value_insert hplace]
        by_cases heq : k = k₀
        · rw [if_pos heq, heq, Function.update_self]
        · rw [if_neg heq, Function.update_of_ne heq]
          exact ih (hk.resolve_left heq)
      · rw [insert_of_not_hasPlace hplace] at hk ⊢
        have hne : k ≠ k₀ := fun heq => hplace (.inl (heq ▸ hk))
        rw [if_neg hne]
        exact ih hk

end BoundedMap
