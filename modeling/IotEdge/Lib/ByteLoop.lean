import Mathlib

/-!
# Loops over a byte

A loop that counts a byte up to a bound ends only if the bound is below the last
byte: otherwise the byte goes round, and the condition holds for ever
(`loop_eq_none`).  Below it, the loop is a fold over the bytes from the first to the
bound, and over none if the first is beyond it (`loop_eq_foldl`).
-/

namespace ByteLoop

universe u

variable {σ : Type u}

/-- `for (i = start; i <= last; i++)` over a byte.  `none` if it has not ended after `fuel`
rounds. -/
def loop (last : Nat) (body : UInt8 → σ → Option σ) : Nat → UInt8 → σ → Option σ
  | 0, _, _ => none
  | fuel + 1, i, s =>
      if i.toNat ≤ last then (body i s).bind (loop last body fuel (i + 1)) else some s

/-- The bytes that a loop goes over. -/
def bytes (start : UInt8) (last : Nat) : List UInt8 :=
  (List.range' start.toNat (last + 1 - start.toNat)).map UInt8.ofNat

theorem mem_bytes {start i : UInt8} {last : Nat} (hlast : last < 255) :
    i ∈ bytes start last ↔ start.toNat ≤ i.toNat ∧ i.toNat ≤ last := by
  rw [bytes, List.mem_map]
  constructor
  · rintro ⟨n, hn, rfl⟩
    rw [List.mem_range'_1] at hn
    rw [UInt8.toNat_ofNat', Nat.mod_eq_of_lt (by omega)]
    omega
  · intro h
    exact ⟨i.toNat, List.mem_range'_1.mpr (by omega), UInt8.ofNat_toNat⟩

theorem bytes_of_lt {start : UInt8} {last : Nat} (h : last < start.toNat) :
    bytes start last = [] := by
  rw [bytes, Nat.sub_eq_zero_of_le h]
  rfl

theorem toNat_succ {i : UInt8} (h : i.toNat < 255) : (i + 1).toNat = i.toNat + 1 := by
  rw [UInt8.toNat_add]
  exact Nat.mod_eq_of_lt (Nat.succ_lt_succ h)

theorem bytes_of_le {start : UInt8} {last : Nat} (h : start.toNat ≤ last) (hlast : last < 255) :
    bytes start last = start :: bytes (start + 1) last := by
  rw [bytes, bytes, toNat_succ (by omega), Nat.sub_add_comm h, List.range'_succ, List.map_cons,
    UInt8.ofNat_toNat, Nat.add_sub_add_right]

/-- The byte goes round. -/
theorem loop_eq_none {last : Nat} (hlast : 255 ≤ last) (body : UInt8 → σ → Option σ) (fuel : Nat)
    (i : UInt8) (s : σ) : loop last body fuel i s = none := by
  induction fuel generalizing i s with
  | zero => rfl
  | succ fuel ih =>
      have hi := i.toNat_lt
      rw [loop, if_pos (by omega), Option.bind_eq_none_iff]
      exact fun s' _ => ih (i + 1) s'

/-- A round that does not end. -/
theorem loop_eq_none_of_body {last : Nat} {body : UInt8 → σ → Option σ} {i : UInt8} {s : σ}
    (hi : i.toNat ≤ last) (h : body i s = none) (fuel : Nat) : loop last body fuel i s = none := by
  cases fuel with
  | zero => rfl
  | succ fuel => rw [loop, if_pos hi, h, Option.bind_none]

/-- The loop is a fold. -/
theorem loop_eq_foldl {last : Nat} (hlast : last < 255) {body : UInt8 → σ → Option σ}
    {f : UInt8 → σ → σ} (hbody : ∀ i s, body i s = some (f i s)) {fuel : Nat} {i : UInt8}
    (hfuel : last + 1 < fuel + i.toNat ∧ 0 < fuel) (s : σ) :
    loop last body fuel i s = some ((bytes i last).foldl (fun s i => f i s) s) := by
  obtain ⟨hfuel, hpos⟩ := hfuel
  induction fuel generalizing i s with
  | zero => omega
  | succ fuel ih =>
      rw [loop]
      split
      next hi =>
        have hsucc := toNat_succ (i := i) (by omega)
        rw [hbody, Option.bind_some, ih (i := i + 1) _ (by omega) (by omega), bytes_of_le hi hlast]
        rfl
      next hi =>
        rw [bytes_of_lt (by omega)]
        rfl

/-- What a fold adds, it adds in some round. -/
theorem foldl_iff {ι : Type*} {f : σ → ι → σ} {P : σ → Prop} {Q : ι → Prop}
    (h : ∀ s i, P (f s i) ↔ P s ∨ Q i) (l : List ι) (s : σ) :
    P (l.foldl f s) ↔ P s ∨ ∃ i ∈ l, Q i := by
  induction l generalizing s with
  | nil => simp
  | cons i l ih => rw [List.foldl_cons, ih, h, List.exists_mem_cons_iff, or_assoc]

end ByteLoop
