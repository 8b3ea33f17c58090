import IotEdge.Gateway.Base64Encode

/-!
# `base64_decode` and the round trip

The loop of `base64_decode` over memory.  It looks each character up in `base64char` and
puts the bytes of a group together again, with a `continue` at `=`.

`roundTrips_iff` says for which strings the decoder undoes the encoder.
-/

namespace IotEdge

open CString

/-! ## `base64_decode` -/

/-- `mystrchr`: the index of `c`, or of the terminator for `c = 0`. -/
def mystrchr (c : UInt8) : List UInt8 → Option Nat
  | [] => if c = 0 then some 0 else none
  | b :: s => if b = c then some 0 else (mystrchr c s).map (· + 1)

/-- `strchr_of_num`, an `int`. -/
def strchrOfNum (s : List UInt8) (c : UInt8) : BitVec 32 :=
  match mystrchr c s with
  | some ind => .ofNat 32 ind
  | none => -1

/-- An `int` stored in a byte. -/
def lowByte (x : BitVec 32) : UInt8 := .ofBitVec (x.setWidth 8)

/-- The body of the loop of `base64_decode`. -/
def decodeBody (src : List UInt8) (i : Nat) (out : Output) : Option Output := do
  let trans₀ := strchrOfNum base64char (← src[i]?)
  let trans₁ := strchrOfNum base64char (← src[i + 1]?)
  let out ← out.put (lowByte (((trans₀ <<< 2) &&& 0xfc) ||| ((trans₁.sshiftRight 4) &&& 0x03)))
  let c₂ ← src[i + 2]?
  if c₂ = endChar then return out
  let trans₂ := strchrOfNum base64char c₂
  let out ← out.put (lowByte (((trans₁ <<< 4) &&& 0xf0) ||| ((trans₂.sshiftRight 2) &&& 0x0f)))
  let c₃ ← src[i + 3]?
  if c₃ = endChar then return out
  let trans₃ := strchrOfNum base64char c₃
  out.put (lowByte (((trans₂ <<< 6) &&& 0xc0) ||| (trans₃ &&& 0x3f)))

/-- The loop of `base64_decode`, which stays in the array and below `INT_MAX`. -/
def decodeLoop (src : List UInt8) (i : Nat) (out : Output) : Option Output :=
  if _h : i < src.length then
    if src[i] = 0 then some out
    else do
      let out ← decodeBody src i out
      if i + 4 ≤ intMax then decodeLoop src (i + 4) out else none
  else none
termination_by src.length - i

/-- `base64_decode`. -/
def base64DecodeInto (dest : Memory) (src : List UInt8) : Option Memory := do
  let out ← decodeLoop src 0 ⟨dest, 0⟩
  some (Function.update out.dest out.j 0)

/-! ## Characters -/

/-- The search finds the place of a character. -/
theorem strchrOfNum_alphabet : ∀ n : Fin 64,
    strchrOfNum base64char (Base64.alphabet n) = .ofNat 32 n := by decide +kernel

/-- The parts of an `int` that the bytes are made of. -/
theorem lowByte_parts : ∀ x : Fin 64,
    (lowByte ((BitVec.ofNat 32 x <<< 2) &&& 0xfc) = .ofNat (x * 2 ^ 2) ∧
      lowByte ((BitVec.ofNat 32 x).sshiftRight 4 &&& 0x03) = .ofNat (x / 16)) ∧
    (lowByte ((BitVec.ofNat 32 x <<< 4) &&& 0xf0) = .ofNat (x % 16 * 2 ^ 4) ∧
      lowByte ((BitVec.ofNat 32 x).sshiftRight 2 &&& 0x0f) = .ofNat (x / 4)) ∧
    (lowByte ((BitVec.ofNat 32 x <<< 6) &&& 0xc0) = .ofNat (x % 4 * 2 ^ 6) ∧
      lowByte (BitVec.ofNat 32 x &&& 0x3f) = .ofNat x) := by
  decide +kernel

theorem lowByte_or (u v : BitVec 32) : lowByte (u ||| v) = lowByte u ||| lowByte v := by
  rw [lowByte, BitVec.setWidth_or]
  rfl

/-- Two parts side by side. -/
theorem ofNat_or_ofNat {k n : Nat} (h : n < 2 ^ k) (m : Nat) :
    UInt8.ofNat (m * 2 ^ k) ||| UInt8.ofNat n = UInt8.ofNat (m * 2 ^ k + n) := by
  rw [← UInt8.ofNat_or, Nat.mul_comm, ← Nat.two_pow_add_eq_or_of_lt h]

theorem lowByte_first (x y : Fin 64) :
    lowByte (((BitVec.ofNat 32 x <<< 2) &&& 0xfc) ||| ((BitVec.ofNat 32 y).sshiftRight 4 &&& 0x03)) =
      .ofNat (x * 2 ^ 2 + y / 16) := by
  rw [lowByte_or, (lowByte_parts x).1.1, (lowByte_parts y).1.2, ofNat_or_ofNat (by omega)]

theorem lowByte_second (y z : Fin 64) :
    lowByte (((BitVec.ofNat 32 y <<< 4) &&& 0xf0) ||| ((BitVec.ofNat 32 z).sshiftRight 2 &&& 0x0f)) =
      .ofNat (y % 16 * 2 ^ 4 + z / 4) := by
  rw [lowByte_or, (lowByte_parts y).2.1.1, (lowByte_parts z).2.1.2, ofNat_or_ofNat (by omega)]

theorem lowByte_third (z w : Fin 64) :
    lowByte (((BitVec.ofNat 32 z <<< 6) &&& 0xc0) ||| (BitVec.ofNat 32 w &&& 0x3f)) =
      .ofNat (z % 4 * 2 ^ 6 + w) := by
  rw [lowByte_or, (lowByte_parts z).2.2.1, (lowByte_parts w).2.2.2, ofNat_or_ofNat w.isLt]

/-! ## The loop of `base64_decode` -/

section DecodeLoop

variable {src : List UInt8} {i : Nat} {x y z w : Fin 64}

/-- Two characters and `==`. -/
theorem decodeBody_one (hx : src[i]? = some (Base64.alphabet x))
    (hy : src[i + 1]? = some (Base64.alphabet y)) (hz : src[i + 2]? = some endChar)
    (out : Output) :
    decodeBody src i out = out.puts [.ofNat (x * 2 ^ 2 + y / 16)] := by
  simp only [decodeBody, hx, hy, hz, Option.bind_eq_bind, Option.bind_some, strchrOfNum_alphabet,
    lowByte_first, if_true, Output.puts, List.foldlM_cons, List.foldlM_nil]

/-- Three characters and `=`. -/
theorem decodeBody_two (hx : src[i]? = some (Base64.alphabet x))
    (hy : src[i + 1]? = some (Base64.alphabet y)) (hz : src[i + 2]? = some (Base64.alphabet z))
    (hw : src[i + 3]? = some endChar) (out : Output) :
    decodeBody src i out =
      out.puts [.ofNat (x * 2 ^ 2 + y / 16), .ofNat (y % 16 * 2 ^ 4 + z / 4)] := by
  have hz' : Base64.alphabet z ≠ endChar := (alphabet_lt z).2
  simp only [decodeBody, hx, hy, hz, hw, Option.bind_eq_bind, Option.bind_some,
    strchrOfNum_alphabet, lowByte_first, lowByte_second, if_true, if_neg hz', Output.puts,
    List.foldlM_cons, List.foldlM_nil]

/-- Four characters. -/
theorem decodeBody_three (hx : src[i]? = some (Base64.alphabet x))
    (hy : src[i + 1]? = some (Base64.alphabet y)) (hz : src[i + 2]? = some (Base64.alphabet z))
    (hw : src[i + 3]? = some (Base64.alphabet w)) (out : Output) :
    decodeBody src i out =
      out.puts [.ofNat (x * 2 ^ 2 + y / 16), .ofNat (y % 16 * 2 ^ 4 + z / 4),
        .ofNat (z % 4 * 2 ^ 6 + w)] := by
  have hz' : Base64.alphabet z ≠ endChar := (alphabet_lt z).2
  have hw' : Base64.alphabet w ≠ endChar := (alphabet_lt w).2
  simp only [decodeBody, hx, hy, hz, hw, Option.bind_eq_bind, Option.bind_some,
    strchrOfNum_alphabet, lowByte_first, lowByte_second, lowByte_third, if_neg hz', if_neg hw',
    Output.puts, List.foldlM_cons, List.foldlM_nil, bind_pure]

/-- A round of the loop. -/
theorem decodeLoop_round (hx : src[i]? = some (Base64.alphabet x)) (hi : i + 4 ≤ intMax)
    (out : Output) :
    decodeLoop src i out = (decodeBody src i out).bind (decodeLoop src (i + 4)) := by
  obtain ⟨hlt, hget⟩ := List.getElem?_eq_some_iff.mp hx
  rw [decodeLoop, dif_pos hlt, hget, if_neg (alphabet_lt x).1]
  simp only [if_pos hi, Option.bind_eq_bind]

/-- The terminator. -/
theorem decodeLoop_done (h : src[i]? = some 0) (out : Output) :
    decodeLoop src i out = some out := by
  obtain ⟨hlt, hget⟩ := List.getElem?_eq_some_iff.mp h
  rw [decodeLoop, dif_pos hlt, hget, if_pos rfl]

/-- A byte from its parts. -/
theorem ofNat_eq_of_toNat {n : Nat} {b : UInt8} (h : n = b.toNat) : UInt8.ofNat n = b := by
  rw [h, UInt8.ofNat_toNat]

variable {a b c : UInt8}

/-- The encoding of one byte, and the end. -/
theorem decodeLoop_one (hx : src[i]? = some (Base64.alphabet (a.toNat / 4)))
    (hy : src[i + 1]? = some (Base64.alphabet (a.toNat % 4 * 16)))
    (hz : src[i + 2]? = some endChar) (hend : src[i + 4]? = some 0) (hi : i + 4 ≤ intMax)
    (out : Output) : decodeLoop src i out = out.puts [a] := by
  have ha := a.toNat_lt
  obtain ⟨x, hx'⟩ : ∃ x : Fin 64, x.val = a.toNat / 4 := ⟨⟨_, by omega⟩, rfl⟩
  obtain ⟨y, hy'⟩ : ∃ y : Fin 64, y.val = a.toNat % 4 * 16 := ⟨⟨_, by omega⟩, rfl⟩
  have hbyte : UInt8.ofNat (x * 2 ^ 2 + y / 16) = a := ofNat_eq_of_toNat (by omega)
  rw [← hx'] at hx
  rw [← hy'] at hy
  rw [decodeLoop_round hx hi, decodeBody_one hx hy hz, funext (decodeLoop_done hend),
    Option.bind_fun_some, hbyte]

/-- The encoding of two bytes, and the end. -/
theorem decodeLoop_two (hx : src[i]? = some (Base64.alphabet (a.toNat / 4)))
    (hy : src[i + 1]? = some (Base64.alphabet (a.toNat % 4 * 16 + b.toNat / 16)))
    (hz : src[i + 2]? = some (Base64.alphabet (b.toNat % 16 * 4)))
    (hw : src[i + 3]? = some endChar) (hend : src[i + 4]? = some 0) (hi : i + 4 ≤ intMax)
    (out : Output) : decodeLoop src i out = out.puts [a, b] := by
  have ha := a.toNat_lt
  have hb := b.toNat_lt
  obtain ⟨x, hx'⟩ : ∃ x : Fin 64, x.val = a.toNat / 4 := ⟨⟨_, by omega⟩, rfl⟩
  obtain ⟨y, hy'⟩ : ∃ y : Fin 64, y.val = a.toNat % 4 * 16 + b.toNat / 16 := ⟨⟨_, by omega⟩, rfl⟩
  obtain ⟨z, hz'⟩ : ∃ z : Fin 64, z.val = b.toNat % 16 * 4 := ⟨⟨_, by omega⟩, rfl⟩
  have hfirst : UInt8.ofNat (x * 2 ^ 2 + y / 16) = a := ofNat_eq_of_toNat (by omega)
  have hsecond : UInt8.ofNat (y % 16 * 2 ^ 4 + z / 4) = b := ofNat_eq_of_toNat (by omega)
  rw [← hx'] at hx
  rw [← hy'] at hy
  rw [← hz'] at hz
  rw [decodeLoop_round hx hi, decodeBody_two hx hy hz hw, funext (decodeLoop_done hend),
    Option.bind_fun_some, hfirst, hsecond]

/-- The encoding of three bytes. -/
theorem decodeLoop_group (hx : src[i]? = some (Base64.alphabet (a.toNat / 4)))
    (hy : src[i + 1]? = some (Base64.alphabet (a.toNat % 4 * 16 + b.toNat / 16)))
    (hz : src[i + 2]? = some (Base64.alphabet (b.toNat % 16 * 4 + c.toNat / 64)))
    (hw : src[i + 3]? = some (Base64.alphabet (c.toNat % 64))) (hi : i + 4 ≤ intMax)
    (out : Output) :
    decodeLoop src i out = (out.puts [a, b, c]).bind (decodeLoop src (i + 4)) := by
  have ha := a.toNat_lt
  have hb := b.toNat_lt
  have hc := c.toNat_lt
  obtain ⟨x, hx'⟩ : ∃ x : Fin 64, x.val = a.toNat / 4 := ⟨⟨_, by omega⟩, rfl⟩
  obtain ⟨y, hy'⟩ : ∃ y : Fin 64, y.val = a.toNat % 4 * 16 + b.toNat / 16 := ⟨⟨_, by omega⟩, rfl⟩
  obtain ⟨z, hz'⟩ : ∃ z : Fin 64, z.val = b.toNat % 16 * 4 + c.toNat / 64 := ⟨⟨_, by omega⟩, rfl⟩
  obtain ⟨w, hw'⟩ : ∃ w : Fin 64, w.val = c.toNat % 64 := ⟨⟨_, by omega⟩, rfl⟩
  have hfirst : UInt8.ofNat (x * 2 ^ 2 + y / 16) = a := ofNat_eq_of_toNat (by omega)
  have hsecond : UInt8.ofNat (y % 16 * 2 ^ 4 + z / 4) = b := ofNat_eq_of_toNat (by omega)
  have hthird : UInt8.ofNat (z % 4 * 2 ^ 6 + w) = c := ofNat_eq_of_toNat (by omega)
  rw [← hx'] at hx
  rw [← hy'] at hy
  rw [← hz'] at hz
  rw [← hw'] at hw
  rw [decodeLoop_round hx hi, decodeBody_three hx hy hz hw, hfirst, hsecond, hthird]

end DecodeLoop

/-- The loop from any group on. -/
theorem decodeLoop_eq (s before more : List UInt8) (out : Output)
    (hlen : before.length + (base64Encode s).length ≤ intMax) :
    decodeLoop (before ++ (base64Encode s ++ 0 :: more)) before.length out = out.puts s := by
  rw [base64Encode_eq] at hlen ⊢
  induction s using base64Encode.induct generalizing before out with
  | case1 =>
      rw [Base64.encode_nil]
      exact decodeLoop_done (getElem?_append_add _ _ 0) out
  | case2 a =>
      have hget := getElem?_append_add before (Base64.encode [a] ++ 0 :: more)
      rw [Base64.encode_one] at hlen hget ⊢
      exact decodeLoop_one (hget 0) (hget 1) (hget 2) (hget 4) hlen out
  | case3 a b =>
      have hget := getElem?_append_add before (Base64.encode [a, b] ++ 0 :: more)
      rw [Base64.encode_two] at hlen hget ⊢
      exact decodeLoop_two (hget 0) (hget 1) (hget 2) (hget 3) (hget 4) hlen out
  | case4 a b c s ih =>
      have hget := getElem?_append_add before (Base64.encode (a :: b :: c :: s) ++ 0 :: more)
      rw [Base64.encode_group] at hlen hget ⊢
      simp only [List.length_cons] at hlen
      have hi : before.length + 4 ≤ intMax := by omega
      rw [decodeLoop_group (i := before.length) (hget 0) (hget 1) (hget 2) (hget 3) hi]
      -- What is left is behind the four characters.
      have hrest : ∀ out, decodeLoop (before ++ (Base64.alphabet (a.toNat / 4) ::
          Base64.alphabet (a.toNat % 4 * 16 + b.toNat / 16) ::
          Base64.alphabet (b.toNat % 16 * 4 + c.toNat / 64) :: Base64.alphabet (c.toNat % 64) ::
          Base64.encode s ++ 0 :: more)) (before.length + 4) out = out.puts s := by
        intro out
        have h := ih (before ++ [Base64.alphabet (a.toNat / 4),
          Base64.alphabet (a.toNat % 4 * 16 + b.toNat / 16),
          Base64.alphabet (b.toNat % 16 * 4 + c.toNat / 64), Base64.alphabet (c.toNat % 64)]) out
          (by simp only [List.length_append, List.length_cons, List.length_nil]; omega)
        rw [List.length_append, List.append_assoc] at h
        exact h
      rw [funext hrest, ← Output.puts_append]
      rfl

/-! ## The round trip -/

/-- For the string `e` the string `s` is written, its terminator, and nothing else. -/
def DecodesTo (e s : List UInt8) : Prop :=
  ∀ dest more, base64DecodeInto dest (e ++ 0 :: more) = some (overwrite dest 0 (s ++ [0]))

/-- An encoding is decoded. -/
theorem decodesTo_base64Encode {s : List UInt8} (hlen : s.length ≤ 1610612733) :
    DecodesTo (base64Encode s) s := by
  intro dest more
  have hfits := (length_base64Encode_le_iff s).mpr hlen
  have hloop := decodeLoop_eq s [] more ⟨dest, 0⟩ (by rwa [List.length_nil, Nat.zero_add])
  rw [List.nil_append, List.length_nil] at hloop
  have hbytes : 0 + s.length ≤ intMax := by
    rw [Nat.zero_add]
    exact hlen.trans (by decide)
  rw [base64DecodeInto, hloop, Output.puts_eq (Nat.zero_le _), if_pos hbytes,
    Option.bind_eq_bind, Option.bind_some, update_overwrite]

/-- A string is decoded to one string. -/
theorem DecodesTo.unique {e s t : List UInt8} (hs : DecodesTo e s) (ht : DecodesTo e t) :
    s = t := by
  have hdest : ∀ dest, overwrite dest 0 (s ++ [0]) = overwrite dest 0 (t ++ [0]) := fun dest =>
    Option.some.inj ((hs dest []).symm.trans (ht dest []))
  exact List.append_cancel_right (overwrite_injective hdest)

/-- What is decoded again was encoded. -/
theorem encodedPart_of_decodesTo {s e : List UInt8} (hne : s ≠ []) (h0 : 0 ∉ s)
    (he : EncodesTo s e) (hs : DecodesTo e s) : encodedPart s = s := by
  obtain ⟨rfl, hlen⟩ := (encodesTo_iff hne h0).mp he
  exact (decodesTo_base64Encode hlen).unique hs

/-- `mystrlen` takes the empty string for a longer one. -/
theorem not_encodesTo_nil : ¬ EncodesTo [] [] := by
  intro h
  have hloop : encodeLoop [0] (datalength [0]) 0 ⟨fun _ => 0, 0⟩ =
      Output.puts ⟨fun _ => 0, 0⟩ (base64Encode [0]) := encodeLoop_eq [0] [] [] _
  have hread := h (fun _ => 0) []
  rw [List.nil_append, base64EncodeInto, hloop, Output.puts_eq (Nat.zero_le _),
    if_pos (by decide), Option.bind_eq_bind, Option.bind_some, Option.some.injEq] at hread
  exact absurd (congrFun hread 0) (by decide)

/-- The decoder undoes the encoder exactly when the index of the encoder stays in range, and
the encoder undoes the decoder on everything it has written but the empty string. -/
theorem roundTrips_iff {s : List UInt8} (hne : s ≠ []) (h0 : 0 ∉ s) :
    ((∃ e, EncodesTo s e ∧ DecodesTo e s) ↔ s.length ≤ 1610612733) ∧
      ∀ e, EncodesTo s e → ((∃ t, DecodesTo e t ∧ EncodesTo t e) ↔ e ≠ []) := by
  refine ⟨⟨?_, fun hlen => ?_⟩, fun e he => ?_⟩
  · rintro ⟨e, he, hs⟩
    have hlen := ((encodesTo_iff hne h0).mp he).2
    rwa [encodedPart_of_decodesTo hne h0 he hs] at hlen
  · exact ⟨base64Encode s, encodesTo_of_le hne h0 hlen, decodesTo_base64Encode hlen⟩
  · obtain ⟨rfl, hlen⟩ := (encodesTo_iff hne h0).mp he
    have hpart := decodesTo_base64Encode hlen
    constructor
    · rintro ⟨t, ht, hagain⟩ hnil
      have hzero : t = [] := by
        have hlength := congrArg List.length hnil
        rw [length_base64Encode, List.length_nil] at hlength
        rw [← hpart.unique ht]
        exact List.eq_nil_of_length_eq_zero (by omega)
      rw [hzero, hnil] at hagain
      exact not_encodesTo_nil hagain
    · intro hne'
      refine ⟨encodedPart s, hpart, encodesTo_of_le ?_ ?_ hlen⟩
      · intro hnil
        exact hne' (by rw [hnil, base64Encode])
      · exact fun hmem => h0 (List.take_subset _ _ hmem)

theorem roundTrips_iff_id :
    ascii "id:" ≠ [] ∧ 0 ∉ ascii "id:" ∧ ∃ e, EncodesTo (ascii "id:") e ∧ DecodesTo e (ascii "id:") :=
  ⟨by decide, by decide, (roundTrips_iff (by decide) (by decide)).1.mpr (by decide)⟩

/-- `INT_MAX + 1` bytes are not decoded again. -/
theorem roundTrip_lost :
    ¬ ∀ s : List UInt8, s ≠ [] → 0 ∉ s → ∃ e, EncodesTo s e ∧ DecodesTo e s := by
  intro h
  obtain ⟨n, hn⟩ : ∃ n, n = 2 ^ 31 := ⟨_, rfl⟩
  obtain ⟨hne, h0, hpart⟩ := encodedPart_replicate hn
  obtain ⟨e, he, hs⟩ := h _ hne h0
  exact hne ((encodedPart_of_decodesTo hne h0 he hs).symm.trans hpart)

end IotEdge
