import Mathlib

/-!
# Base64

The encoding of RFC 4648, section 4.  The bits of all bytes are read in a row, six at a
time, the last six filled up with zeros.  Each six of them select a character of the
alphabet, and `=` fills the text up to a multiple of four characters.

`encode_group`, `encode_two` and `encode_one` say the same for whole groups of three bytes
and for what is left of the last group, with arithmetic in place of bits.
-/

namespace Base64

/-- The number with these bits, the highest first. -/
def value (bits : List Bool) : Nat := bits.foldl (fun n b => 2 * n + b.toNat) 0

/-- The `k` bits of `n` from bit `lo` on, the highest first. -/
def window (n lo k : Nat) : List Bool := (List.range k).reverse.map fun i => n.testBit (lo + i)

/-- The bits of a byte. -/
def bits (b : UInt8) : List Bool := window b.toNat 0 8

/-- Six bits at a time. -/
def sextets (bits : List Bool) : List Nat :=
  if bits = [] then [] else value ((bits.take 6).rightpad 6 false) :: sextets (bits.drop 6)
termination_by bits.length
decreasing_by
  have := List.length_pos_of_ne_nil ‹_›
  rw [List.length_drop]
  omega

/-- `A` to `Z`, `a` to `z`, `0` to `9`, `+` and `/`. -/
def alphabet (n : Nat) : UInt8 :=
  if n < 26 then .ofNat (65 + n)
  else if n < 52 then .ofNat (97 + (n - 26))
  else if n < 62 then .ofNat (48 + (n - 52))
  else if n = 62 then 43
  else 47

/-- Filled up with `=`. -/
def pad (text : List UInt8) : List UInt8 :=
  text ++ List.replicate ((4 - text.length % 4) % 4) 61

/-- The encoding of some bytes. -/
def encode (s : List UInt8) : List UInt8 := pad ((sextets (s.flatMap bits)).map alphabet)

/-! ## Bits -/

theorem foldl_value (l : List Bool) (n : Nat) :
    l.foldl (fun n b => 2 * n + b.toNat) n = n * 2 ^ l.length + value l := by
  induction l generalizing n with
  | nil => simp [value]
  | cons b l ih =>
      rw [value, List.foldl_cons, List.foldl_cons, ih, ih (2 * 0 + b.toNat), List.length_cons,
        Nat.pow_succ]
      ring

theorem value_append (l₁ l₂ : List Bool) :
    value (l₁ ++ l₂) = value l₁ * 2 ^ l₂.length + value l₂ := by
  rw [value, List.foldl_append, foldl_value]
  rfl

@[simp] theorem length_window (n lo k : Nat) : (window n lo k).length = k := by simp [window]

theorem value_window (n lo k : Nat) : value (window n lo k) = n / 2 ^ lo % 2 ^ k := by
  induction k with
  | zero => simp [window, value, Nat.mod_one]
  | succ k ih =>
      have hcons : window n lo (k + 1) = [n.testBit (lo + k)] ++ window n lo k := by
        simp [window, List.range_succ]
      have hbit : (n.testBit (lo + k)).toNat = n / 2 ^ lo / 2 ^ k % 2 := by
        rw [Nat.toNat_testBit, Nat.pow_add, Nat.div_div_eq_div_mul]
      rw [hcons, value_append, length_window, ih, Nat.mod_pow_succ, ← hbit]
      simp only [value, List.foldl_cons, List.foldl_nil]
      ring

/-- The bits of a byte in two parts. -/
theorem bits_split (b : UInt8) {k : Nat} (hk : k ≤ 8) :
    bits b = window b.toNat k (8 - k) ++ window b.toNat 0 k := by
  obtain ⟨m, rfl⟩ : ∃ m, 8 - k = m := ⟨_, rfl⟩
  have h8 : List.range 8 = List.range k ++ (List.range (8 - k)).map (k + ·) := by
    rw [← List.range_add, Nat.add_sub_cancel' hk]
  rw [bits, window, h8, List.reverse_append, List.map_append, window, window]
  simp [← List.map_reverse, Function.comp_def]

/-! ## Six bits -/

theorem sextets_nil : sextets [] = [] := by rw [sextets, if_pos rfl]

/-- Six bits in front. -/
theorem sextets_append {group : List Bool} (h : group.length = 6) (rest : List Bool) :
    sextets (group ++ rest) = value group :: sextets rest := by
  have hne : group ++ rest ≠ [] := by
    intro hnil
    rw [(List.append_eq_nil_iff.mp hnil).1] at h
    cases h
  rw [sextets, if_neg hne, List.take_left' h, List.drop_left' h, List.rightpad, h]
  simp

/-- Fewer than six bits at the end. -/
theorem sextets_last {rest : List Bool} (hne : rest ≠ []) (h : rest.length < 6) :
    sextets rest = [value rest * 2 ^ (6 - rest.length)] := by
  have hzeros : ∀ k, value (List.replicate k false) = 0 := by
    intro k
    induction k with
    | zero => rfl
    | succ k ih =>
        rw [List.replicate_succ, ← List.singleton_append, value_append, ih]
        simp [value]
  rw [sextets, if_neg hne, List.take_of_length_le h.le, List.drop_eq_nil_of_le h.le, sextets_nil,
    List.rightpad, value_append, hzeros, List.length_replicate, Nat.add_zero]

/-- The bits of three bytes and more. -/
theorem sextets_group (a b c : UInt8) (rest : List Bool) :
    sextets (bits a ++ (bits b ++ (bits c ++ rest))) =
      a.toNat / 4 :: (a.toNat % 4 * 16 + b.toNat / 16) :: (b.toNat % 16 * 4 + c.toNat / 64) ::
        c.toNat % 64 :: sextets rest := by
  have ha := a.toNat_lt
  have hb := b.toNat_lt
  have hc := c.toNat_lt
  have hbits : bits a ++ (bits b ++ (bits c ++ rest)) =
      window a.toNat 2 6 ++ ((window a.toNat 0 2 ++ window b.toNat 4 4) ++
        ((window b.toNat 0 4 ++ window c.toNat 6 2) ++ (window c.toNat 0 6 ++ rest))) := by
    rw [bits_split a (by decide : 2 ≤ 8), bits_split b (by decide : 4 ≤ 8),
      bits_split c (by decide : 6 ≤ 8)]
    simp only [List.append_assoc, Nat.reduceSub]
  rw [hbits, sextets_append (by simp), sextets_append (by simp), sextets_append (by simp),
    sextets_append (by simp)]
  simp only [value_append, value_window, length_window, Nat.reducePow, Nat.div_one,
    List.cons.injEq, and_true]
  omega

/-- The bits of two bytes. -/
theorem sextets_two (a b : UInt8) :
    sextets (bits a ++ bits b) =
      [a.toNat / 4, a.toNat % 4 * 16 + b.toNat / 16, b.toNat % 16 * 4] := by
  have ha := a.toNat_lt
  have hb := b.toNat_lt
  have hbits : bits a ++ bits b =
      window a.toNat 2 6 ++ ((window a.toNat 0 2 ++ window b.toNat 4 4) ++ window b.toNat 0 4) := by
    rw [bits_split a (by decide : 2 ≤ 8), bits_split b (by decide : 4 ≤ 8)]
    simp only [List.append_assoc, Nat.reduceSub]
  rw [hbits, sextets_append (by simp), sextets_append (by simp),
    sextets_last (List.ne_nil_of_length_pos (by simp)) (by simp)]
  simp only [value_append, value_window, length_window, Nat.reducePow, Nat.reduceSub, Nat.div_one,
    List.cons.injEq, and_true]
  omega

/-- The bits of one byte. -/
theorem sextets_one (a : UInt8) : sextets (bits a) = [a.toNat / 4, a.toNat % 4 * 16] := by
  have ha := a.toNat_lt
  rw [bits_split a (by decide : 2 ≤ 8), sextets_append (by simp),
    sextets_last (List.ne_nil_of_length_pos (by simp)) (by simp)]
  simp only [value_window, length_window, Nat.reducePow, Nat.reduceSub, Nat.div_one,
    List.cons.injEq, and_true]
  omega

/-! ## Groups -/

/-- Four characters in front leave the filling as it is. -/
theorem pad_cons (c₁ c₂ c₃ c₄ : UInt8) (text : List UInt8) :
    pad (c₁ :: c₂ :: c₃ :: c₄ :: text) = c₁ :: c₂ :: c₃ :: c₄ :: pad text := by
  have hlen : (text.length + 1 + 1 + 1 + 1) % 4 = text.length % 4 := by omega
  simp only [pad, List.length_cons, hlen, List.cons_append]

@[simp] theorem encode_nil : encode [] = [] := by simp [encode, sextets_nil, pad]

/-- One byte at the end. -/
theorem encode_one (a : UInt8) :
    encode [a] = [alphabet (a.toNat / 4), alphabet (a.toNat % 4 * 16), 61, 61] := by
  simp [encode, sextets_one, pad, List.replicate_succ]

/-- Two bytes at the end. -/
theorem encode_two (a b : UInt8) :
    encode [a, b] = [alphabet (a.toNat / 4), alphabet (a.toNat % 4 * 16 + b.toNat / 16),
      alphabet (b.toNat % 16 * 4), 61] := by
  simp [encode, sextets_two, pad]

/-- Three bytes and more. -/
theorem encode_group (a b c : UInt8) (s : List UInt8) :
    encode (a :: b :: c :: s) =
      alphabet (a.toNat / 4) :: alphabet (a.toNat % 4 * 16 + b.toNat / 16) ::
        alphabet (b.toNat % 16 * 4 + c.toNat / 64) :: alphabet (c.toNat % 64) :: encode s := by
  simp only [encode, List.flatMap_cons, sextets_group, List.map_cons, pad_cons]

end Base64
