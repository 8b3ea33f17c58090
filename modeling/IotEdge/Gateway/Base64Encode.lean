import IotEdge.Gateway.Base64
import IotEdge.Lib.Base64

/-!
# `base64_encode` in memory

The loop of `base64_encode` over an array that is read and an array that is written, with
`int` indices.  A string is the bytes of an array before its first zero.

`datalength` is an `int` too, so it is the length of the string only up to `INT_MAX`, and
`j` runs over before that, as four bytes are written for three.  `base64Encode_writes_iff`
says for which strings the encoding of RFC 4648 is written.
-/

namespace IotEdge

open CString

/-- `INT_MAX`. -/
def intMax : Nat := 2 ^ 31 - 1

/-- An array of bytes that is written. -/
abbrev Memory := Nat → UInt8

/-- The bytes are stored from index `j` on. -/
def overwrite (dest : Memory) (j : Nat) (bytes : List UInt8) : Memory :=
  fun k => if k < j then dest k else (bytes[k - j]?).getD (dest k)

/-! ## The array that is written -/

/-- `dest` and `j`. -/
structure Output where
  dest : Memory
  j : Nat

/-- `dest[j++] = c`.  There is no next index behind `INT_MAX`. -/
def Output.put (out : Output) (c : UInt8) : Option Output :=
  if out.j < intMax then some ⟨Function.update out.dest out.j c, out.j + 1⟩ else none

/-- The bytes are written one by one. -/
def Output.puts (out : Output) (bytes : List UInt8) : Option Output := bytes.foldlM Output.put out

/-! ## `base64_encode` -/

/-- `mystrlen`, which begins with the second byte. -/
def mystrlen : List UInt8 → Nat
  | [] => 0
  | _ :: src => (src.takeWhile (· ≠ 0)).length + 1

/-- `datalength`. -/
def datalength (src : List UInt8) : Int := (BitVec.ofNat 32 (mystrlen src)).toInt

/-- The loop of `base64_encode`. -/
def encodeLoop (src : List UInt8) (datalength : Int) (i : Nat) (out : Output) : Option Output :=
  if (i : Int) < datalength then do
    let a ← src[i]?
    let out ← out.put (base64At ((a >>> 2) &&& 0x3f))
    let ind := (a <<< 4) &&& 0x30
    if (i : Int) + 1 < datalength then
      let b ← src[i + 1]?
      let out ← out.put (base64At (ind ||| ((b >>> 4) &&& 0x0f)))
      let ind := (b <<< 2) &&& 0x3c
      if (i : Int) + 2 < datalength then
        let c ← src[i + 2]?
        let out ← out.put (base64At (ind ||| ((c >>> 6) &&& 0x03)))
        let out ← out.put (base64At (c &&& 0x3f))
        encodeLoop src datalength (i + 3) out
      else
        let out ← out.put (base64At ind)
        out.put endChar
    else
      let out ← out.put (base64At ind)
      let out ← out.put endChar
      out.put endChar
  else some out
termination_by (datalength - i).toNat

/-- `base64_encode`. -/
def base64EncodeInto (dest : Memory) (src : List UInt8) : Option Memory := do
  let out ← encodeLoop src (datalength src) 0 ⟨dest, 0⟩
  some (Function.update out.dest out.j 0)

/-! ## Writing -/

@[simp] theorem overwrite_nil (dest : Memory) (j : Nat) : overwrite dest j [] = dest := by
  funext k
  simp [overwrite]

/-- One byte more in front. -/
theorem overwrite_cons (dest : Memory) (j : Nat) (c : UInt8) (bytes : List UInt8) :
    overwrite dest j (c :: bytes) = overwrite (Function.update dest j c) (j + 1) bytes := by
  funext k
  rcases lt_trichotomy k j with hlt | rfl | hgt
  · simp [overwrite, hlt, hlt.ne, Nat.lt_succ_of_lt hlt]
  · simp [overwrite]
  · obtain ⟨m, rfl⟩ := Nat.exists_eq_add_of_lt hgt
    have hj : ¬ j + m + 1 < j := by omega
    have hj' : ¬ j + m + 1 < j + 1 := by omega
    have hsub : j + m + 1 - j = m + 1 := by omega
    have hsub' : j + m + 1 - (j + 1) = m := by omega
    rw [overwrite, overwrite, if_neg hj, if_neg hj', hsub, hsub', List.getElem?_cons_succ,
      Function.update_of_ne (by omega)]

/-- The byte behind the bytes. -/
theorem update_overwrite (dest : Memory) (j : Nat) (bytes : List UInt8) (c : UInt8) :
    Function.update (overwrite dest j bytes) (j + bytes.length) c =
      overwrite dest j (bytes ++ [c]) := by
  induction bytes generalizing dest j with
  | nil => rw [List.nil_append, overwrite_cons, overwrite_nil, overwrite_nil]; rfl
  | cons b bytes ih =>
      rw [overwrite_cons, List.cons_append, overwrite_cons, ← ih, List.length_cons,
        Nat.add_right_comm, Nat.add_assoc]

/-- What is written says what the bytes are. -/
theorem overwrite_injective {bytes₁ bytes₂ : List UInt8}
    (h : ∀ dest, overwrite dest 0 bytes₁ = overwrite dest 0 bytes₂) : bytes₁ = bytes₂ := by
  refine List.ext_getElem? fun k => ?_
  have hk : ∀ c : UInt8, (bytes₁[k]?).getD c = (bytes₂[k]?).getD c := by
    intro c
    have := congrFun (h fun _ => c) k
    simpa [overwrite] using this
  have h01 : (0 : UInt8) ≠ 1 := by decide
  cases h₁ : bytes₁[k]? with
  | none =>
      cases h₂ : bytes₂[k]? with
      | none => rfl
      | some c =>
          have hzero := hk 0
          have hone := hk 1
          rw [h₁, h₂] at hzero hone
          exact absurd (hzero.trans hone.symm) h01
  | some b =>
      cases h₂ : bytes₂[k]? with
      | none =>
          have hzero := hk 0
          have hone := hk 1
          rw [h₁, h₂] at hzero hone
          exact absurd (hzero.symm.trans hone) h01
      | some c =>
          have hzero := hk 0
          rw [h₁, h₂] at hzero
          exact congrArg some hzero

/-- Writing succeeds as long as the index does. -/
theorem Output.puts_eq {out : Output} (h : out.j ≤ intMax) (bytes : List UInt8) :
    out.puts bytes = if out.j + bytes.length ≤ intMax then
      some ⟨overwrite out.dest out.j bytes, out.j + bytes.length⟩ else none := by
  induction bytes generalizing out with
  | nil => simp [puts, h]
  | cons c bytes ih =>
      rw [puts, List.foldlM_cons, put]
      split
      next hlt =>
        have hnext : (⟨Function.update out.dest out.j c, out.j + 1⟩ : Output).j ≤ intMax := hlt
        rw [Option.bind_eq_bind, Option.bind_some, ← puts, ih hnext, overwrite_cons,
          List.length_cons, Nat.add_right_comm, Nat.add_assoc]
      next hge =>
        rw [if_neg (by rw [List.length_cons]; omega)]
        rfl

theorem Output.puts_append (out : Output) (bytes₁ bytes₂ : List UInt8) :
    out.puts (bytes₁ ++ bytes₂) = (out.puts bytes₁).bind (·.puts bytes₂) := List.foldlM_append

/-! ## The sextets -/

theorem alphabet_lt : ∀ n : Fin 64, Base64.alphabet n ≠ 0 ∧ Base64.alphabet n ≠ endChar := by
  decide

theorem base64At_ofNat : ∀ n : Fin 64, base64At (.ofNat n) = Base64.alphabet n := by decide +kernel

/-- The table is the alphabet. -/
theorem base64At_eq {ind : UInt8} (h : ind.toNat < 64) :
    base64At ind = Base64.alphabet ind.toNat := by
  rw [← base64At_ofNat ⟨ind.toNat, h⟩, UInt8.ofNat_toNat]

/-- The parts of a byte that the sextets are made of. -/
theorem sextet_parts : ∀ a : Fin 256,
    (((UInt8.ofNat a >>> 2) &&& 0x3f).toNat = a / 4 ∧
      ((UInt8.ofNat a <<< 4) &&& 0x30).toNat = a % 4 * 16) ∧
    (((UInt8.ofNat a >>> 4) &&& 0x0f).toNat = a / 16 ∧
      ((UInt8.ofNat a <<< 2) &&& 0x3c).toNat = a % 16 * 4) ∧
    (((UInt8.ofNat a >>> 6) &&& 0x03).toNat = a / 64 ∧
      (UInt8.ofNat a &&& 0x3f).toNat = a % 64) := by
  decide +kernel

theorem toNat_parts (a : UInt8) :
    (((a >>> 2) &&& 0x3f).toNat = a.toNat / 4 ∧
      ((a <<< 4) &&& 0x30).toNat = a.toNat % 4 * 16) ∧
    (((a >>> 4) &&& 0x0f).toNat = a.toNat / 16 ∧
      ((a <<< 2) &&& 0x3c).toNat = a.toNat % 16 * 4) ∧
    (((a >>> 6) &&& 0x03).toNat = a.toNat / 64 ∧ (a &&& 0x3f).toNat = a.toNat % 64) := by
  have h := sextet_parts ⟨a.toNat, a.toNat_lt⟩
  rwa [UInt8.ofNat_toNat] at h

theorem toNat_sextet₁ (a : UInt8) : (sextet₁ a).toNat = a.toNat / 4 := (toNat_parts a).1.1

theorem toNat_sextet₂ (a b : UInt8) :
    (sextet₂ a b).toNat = a.toNat % 4 * 16 + b.toNat / 16 := by
  have hb : b.toNat / 16 < 2 ^ 4 := by have := b.toNat_lt; omega
  rw [sextet₂, UInt8.toNat_or, (toNat_parts a).1.2, (toNat_parts b).2.1.1, Nat.mul_comm,
    Nat.two_pow_add_eq_or_of_lt hb]

theorem toNat_sextet₃ (b c : UInt8) :
    (sextet₃ b c).toNat = b.toNat % 16 * 4 + c.toNat / 64 := by
  have hc : c.toNat / 64 < 2 ^ 2 := by have := c.toNat_lt; omega
  rw [sextet₃, UInt8.toNat_or, (toNat_parts b).2.1.2, (toNat_parts c).2.2.1, Nat.mul_comm,
    Nat.two_pow_add_eq_or_of_lt hc]

theorem toNat_sextet₄ (c : UInt8) : (sextet₄ c).toNat = c.toNat % 64 := (toNat_parts c).2.2.2

/-! ## The encoding -/

theorem base64At_sextet₁ (a : UInt8) :
    base64At (sextet₁ a) = Base64.alphabet (a.toNat / 4) := by
  have := a.toNat_lt
  rw [base64At_eq (by rw [toNat_sextet₁]; omega), toNat_sextet₁]

theorem base64At_sextet₂ (a b : UInt8) :
    base64At (sextet₂ a b) = Base64.alphabet (a.toNat % 4 * 16 + b.toNat / 16) := by
  have := b.toNat_lt
  rw [base64At_eq (by rw [toNat_sextet₂]; omega), toNat_sextet₂]

theorem base64At_sextet₃ (b c : UInt8) :
    base64At (sextet₃ b c) = Base64.alphabet (b.toNat % 16 * 4 + c.toNat / 64) := by
  have := c.toNat_lt
  rw [base64At_eq (by rw [toNat_sextet₃]; omega), toNat_sextet₃]

theorem base64At_sextet₄ (c : UInt8) :
    base64At (sextet₄ c) = Base64.alphabet (c.toNat % 64) := by
  rw [base64At_eq (by rw [toNat_sextet₄]; omega), toNat_sextet₄]

/-- The bytes that are computed are the encoding. -/
theorem base64Encode_eq (s : List UInt8) : base64Encode s = Base64.encode s := by
  induction s using base64Encode.induct with
  | case1 => rw [base64Encode, Base64.encode_nil]
  | case2 a => rw [base64Encode, Base64.encode_one, base64At_sextet₁, base64At_sextet₂]; rfl
  | case3 a b =>
      rw [base64Encode, Base64.encode_two, base64At_sextet₁, base64At_sextet₂, base64At_sextet₃]
      rfl
  | case4 a b c s ih =>
      rw [base64Encode, Base64.encode_group, base64At_sextet₁, base64At_sextet₂,
        base64At_sextet₃, base64At_sextet₄, ih]

/-! ## The loop of `base64_encode` -/

section EncodeLoop

variable {src : List UInt8} {d i : Nat} {a b c : UInt8}

theorem sextet₂_zero (a : UInt8) : sextet₂ a 0 = (a <<< 4) &&& 0x30 := by simp [sextet₂]

theorem sextet₃_zero (b : UInt8) : sextet₃ b 0 = (b <<< 2) &&& 0x3c := by simp [sextet₃]

/-- Nothing is left. -/
theorem encodeLoop_done (hd : i = d) (out : Output) : encodeLoop src d i out = some out := by
  rw [encodeLoop, if_neg (by omega)]

/-- One byte is left. -/
theorem encodeLoop_one (ha : src[i]? = some a) (hd : i + 1 = d) (out : Output) :
    encodeLoop src d i out = out.puts (base64Encode [a]) := by
  have hlt : (i : Int) < (d : Int) := by omega
  have hone : ¬ (i : Int) + 1 < (d : Int) := by omega
  rw [encodeLoop]
  simp only [hlt, hone, if_true, if_false, ha, base64Encode, sextet₂_zero, Output.puts,
    List.foldlM_cons, List.foldlM_nil, bind_pure, Option.bind_eq_bind, Option.bind_some]
  rfl

/-- Two bytes are left. -/
theorem encodeLoop_two (ha : src[i]? = some a) (hb : src[i + 1]? = some b) (hd : i + 2 = d)
    (out : Output) : encodeLoop src d i out = out.puts (base64Encode [a, b]) := by
  have hlt : (i : Int) < (d : Int) := by omega
  have hone : (i : Int) + 1 < (d : Int) := by omega
  have htwo : ¬ (i : Int) + 2 < (d : Int) := by omega
  rw [encodeLoop]
  simp only [hlt, hone, htwo, if_true, if_false, ha, hb, base64Encode, sextet₃_zero, Output.puts,
    List.foldlM_cons, List.foldlM_nil, bind_pure, Option.bind_eq_bind, Option.bind_some]
  rfl

/-- Three bytes are left, or more. -/
theorem encodeLoop_group (ha : src[i]? = some a) (hb : src[i + 1]? = some b)
    (hc : src[i + 2]? = some c) (hd : i + 3 ≤ d) (out : Output) :
    encodeLoop src d i out = (out.puts [base64At (sextet₁ a), base64At (sextet₂ a b),
      base64At (sextet₃ b c), base64At (sextet₄ c)]).bind (encodeLoop src d (i + 3)) := by
  have hlt : (i : Int) < (d : Int) := by omega
  have hone : (i : Int) + 1 < (d : Int) := by omega
  have htwo : (i : Int) + 2 < (d : Int) := by omega
  rw [encodeLoop]
  simp only [hlt, hone, htwo, if_true, ha, hb, hc, Output.puts, List.foldlM_cons,
    List.foldlM_nil, bind_pure, Option.bind_eq_bind, Option.bind_some, Option.bind_assoc]
  rfl

/-- The elements behind some others. -/
theorem getElem?_append_add {α : Type*} (before l : List α) (k : Nat) :
    (before ++ l)[before.length + k]? = l[k]? := by
  rw [List.getElem?_append_right (Nat.le_add_right _ _), Nat.add_sub_cancel_left]

/-- The loop from any group on. -/
theorem encodeLoop_eq (s before more : List UInt8) (out : Output) :
    encodeLoop (before ++ (s ++ more)) (before.length + s.length : Nat) before.length out =
      out.puts (base64Encode s) := by
  induction s using base64Encode.induct generalizing before out with
  | case1 => exact encodeLoop_done rfl out
  | case2 a => exact encodeLoop_one (getElem?_append_add _ _ 0) rfl out
  | case3 a b =>
      have hget := getElem?_append_add before ([a, b] ++ more)
      exact encodeLoop_two (hget 0) (hget 1) rfl out
  | case4 a b c s ih =>
      have hget := getElem?_append_add before (a :: b :: c :: s ++ more)
      have hloop : ∀ out, encodeLoop (before ++ (a :: b :: c :: s ++ more))
          (before.length + (a :: b :: c :: s).length : Nat) (before.length + 3) out =
            out.puts (base64Encode s) := by
        intro out
        have hlen : (before ++ [a, b, c]).length = before.length + 3 := by simp
        have h := ih (before ++ [a, b, c]) out
        rw [hlen, List.append_assoc] at h
        rw [← h, List.length_cons, List.length_cons, List.length_cons]
        congr 2
        omega
      have hlen : before.length + 3 ≤ before.length + (a :: b :: c :: s).length := by simp
      rw [encodeLoop_group (i := before.length) (hget 0) (hget 1) (hget 2) hlen, funext hloop,
        base64Encode, ← Output.puts_append]
      rfl

end EncodeLoop

/-! ## What `base64_encode` writes -/

theorem mystrlen_append {s : List UInt8} (hne : s ≠ []) (h0 : 0 ∉ s) (rest : List UInt8) :
    mystrlen (s ++ 0 :: rest) = s.length := by
  cases s with
  | nil => exact absurd rfl hne
  | cons b s =>
      have hs : ∀ c ∈ s, (c ≠ 0 : Bool) = true := by
        intro c hc
        simpa using fun h : c = 0 => h0 (List.mem_cons_of_mem _ (h ▸ hc))
      rw [List.cons_append, mystrlen, List.takeWhile_append_of_pos hs]
      simp

/-- A length as an `int`. -/
theorem toInt_ofNat_le (n : Nat) : (BitVec.ofNat 32 n).toInt.toNat ≤ n := by
  rw [BitVec.toInt_eq_toNat_cond, BitVec.toNat_ofNat]
  split <;> omega

theorem toInt_ofNat_eq {n : Nat} (h : n ≤ intMax) : (BitVec.ofNat 32 n).toInt = n := by
  rw [intMax] at h
  rw [BitVec.toInt_eq_toNat_cond, BitVec.toNat_ofNat, Nat.mod_eq_of_lt (by omega),
    if_pos (by omega)]

/-- The part of a string that is encoded. -/
def encodedPart (s : List UInt8) : List UInt8 := s.take (BitVec.ofNat 32 s.length).toInt.toNat

theorem encodedPart_eq {s : List UInt8} (hlen : s.length ≤ intMax) : encodedPart s = s := by
  rw [encodedPart, toInt_ofNat_eq hlen, Int.toNat_natCast, List.take_length]

/-- What is written, as long as the index is an `int`. -/
theorem base64EncodeInto_eq {s : List UInt8} (hne : s ≠ []) (h0 : 0 ∉ s) (dest : Memory)
    (rest : List UInt8) :
    base64EncodeInto dest (s ++ 0 :: rest) =
      if (base64Encode (encodedPart s)).length ≤ intMax then
        some (overwrite dest 0 (base64Encode (encodedPart s) ++ [0])) else none := by
  obtain ⟨d, hd⟩ : ∃ d, (BitVec.ofNat 32 s.length).toInt = d := ⟨_, rfl⟩
  have hle : d.toNat ≤ s.length := hd ▸ toInt_ofNat_le s.length
  have hloop : encodeLoop (s ++ 0 :: rest) d 0 ⟨dest, 0⟩ =
      Output.puts ⟨dest, 0⟩ (base64Encode (s.take d.toNat)) := by
    rcases le_or_gt d 0 with hneg | hpos
    · rw [encodeLoop, if_neg (by simpa using hneg), Int.toNat_of_nonpos hneg]
      rfl
    · have h := encodeLoop_eq (s.take d.toNat) [] (s.drop d.toNat ++ 0 :: rest) ⟨dest, 0⟩
      rw [List.nil_append, ← List.append_assoc, List.take_append_drop, List.length_take,
        min_eq_left hle, List.length_nil, Nat.zero_add, Int.toNat_of_nonneg hpos.le] at h
      exact h
  rw [base64EncodeInto, datalength, mystrlen_append hne h0, encodedPart, hd, hloop,
    Output.puts_eq (Nat.zero_le _), Nat.zero_add]
  split
  next hfits =>
    rw [Option.bind_eq_bind, Option.bind_some, ← update_overwrite, Nat.zero_add]
  next => rfl

/-- The encoding of a string fits exactly up to this length. -/
theorem length_base64Encode_le_iff (s : List UInt8) :
    (base64Encode s).length ≤ intMax ↔ s.length ≤ 1610612733 := by
  rw [length_base64Encode, intMax]
  omega

/-- For the string `s` the string `e` is written, its terminator, and nothing else. -/
def EncodesTo (s e : List UInt8) : Prop :=
  ∀ dest rest, base64EncodeInto dest (s ++ 0 :: rest) = some (overwrite dest 0 (e ++ [0]))

/-- A string that is written is the encoding of what `datalength` counts. -/
theorem encodesTo_iff {s e : List UInt8} (hne : s ≠ []) (h0 : 0 ∉ s) :
    EncodesTo s e ↔ e = base64Encode (encodedPart s) ∧ (encodedPart s).length ≤ 1610612733 := by
  rw [← length_base64Encode_le_iff]
  constructor
  · intro h
    have hfits : (base64Encode (encodedPart s)).length ≤ intMax := by
      by_contra hlong
      have hnone := h (fun _ => 0) []
      rw [base64EncodeInto_eq hne h0, if_neg hlong] at hnone
      cases hnone
    refine ⟨?_, hfits⟩
    have hdest : ∀ dest, overwrite dest 0 (base64Encode (encodedPart s) ++ [0]) =
        overwrite dest 0 (e ++ [0]) := by
      intro dest
      have hwrite := h dest []
      rwa [base64EncodeInto_eq hne h0, if_pos hfits, Option.some.injEq] at hwrite
    exact (List.append_cancel_right (overwrite_injective hdest)).symm
  · rintro ⟨rfl, hfits⟩ dest rest
    rw [base64EncodeInto_eq hne h0, if_pos hfits]

/-- The whole string is encoded when its encoding fits. -/
theorem encodesTo_of_le {s : List UInt8} (hne : s ≠ []) (h0 : 0 ∉ s)
    (hlen : s.length ≤ 1610612733) : EncodesTo s (base64Encode s) := by
  rw [encodesTo_iff hne h0, encodedPart_eq (hlen.trans (by decide))]
  exact ⟨rfl, hlen⟩

/-- Nothing of `INT_MAX + 1` bytes is encoded, as their number is negative as an `int`. -/
theorem encodedPart_replicate {n : Nat} (hn : n = 2 ^ 31) :
    List.replicate n (65 : UInt8) ≠ [] ∧ 0 ∉ List.replicate n (65 : UInt8) ∧
      encodedPart (List.replicate n 65) = [] := by
  refine ⟨?_, fun hmem => absurd (List.eq_of_mem_replicate hmem) (by decide), ?_⟩
  · intro hnil
    have := congrArg List.length hnil
    rw [List.length_replicate, List.length_nil] at this
    omega
  · -- The bits of `INT_MAX + 1` are those of the least `int`.
    have hneg : (BitVec.ofNat 32 n).toInt.toNat = 0 := by
      rw [hn]
      rfl
    rw [encodedPart, List.length_replicate, hneg, List.take_zero]

/-- `base64_encode` writes the encoding and the terminator exactly when the index stays in
range. -/
theorem base64Encode_writes_iff {s : List UInt8} (hne : s ≠ []) (h0 : 0 ∉ s) :
    EncodesTo s (Base64.encode s) ↔ s.length ≤ 1610612733 := by
  rw [← base64Encode_eq]
  constructor
  · intro h
    obtain ⟨heq, hlen⟩ := (encodesTo_iff hne h0).mp h
    have hlengths := congrArg List.length heq
    rw [length_base64Encode, length_base64Encode] at hlengths
    omega
  · exact encodesTo_of_le hne h0

theorem base64Encode_writes_iff_id :
    ascii "id:" ≠ [] ∧ 0 ∉ ascii "id:" ∧ EncodesTo (ascii "id:") (Base64.encode (ascii "id:")) :=
  ⟨by decide, by decide, (base64Encode_writes_iff (by decide) (by decide)).mpr (by decide)⟩

/-- `INT_MAX + 1` bytes leave a terminator only. -/
theorem base64Encode_writes_nothing :
    ¬ ∀ s : List UInt8, s ≠ [] → 0 ∉ s → EncodesTo s (Base64.encode s) := by
  intro h
  obtain ⟨n, hn⟩ : ∃ n, n = 2 ^ 31 := ⟨_, rfl⟩
  obtain ⟨hne, h0, hpart⟩ := encodedPart_replicate hn
  have heq := ((encodesTo_iff hne h0).mp (h _ hne h0)).1
  have hlengths := congrArg List.length heq
  rw [hpart, ← base64Encode_eq, length_base64Encode, List.length_replicate, hn] at hlengths
  exact absurd hlengths (by decide)

end IotEdge
