import IotEdge.Lib.CString

/-!
# `base64_encode`

The loop of `base64_encode`, three bytes at a time.  The last round is left early
when there are only one or two bytes.
-/

namespace IotEdge

open CString

/-- `base64char`. -/
def base64char : List UInt8 :=
  ascii "ABCDEFGHIJKLMNOPQRSTUVWXYZabcdefghijklmnopqrstuvwxyz0123456789+/"

/-- `end_char`. -/
def endChar : UInt8 := 61

/-- `base64char[(int)ind]`. -/
def base64At (ind : UInt8) : UInt8 := base64char.getD ind.toNat 0

/-- The first six bits of a group of three bytes. -/
def sextet₁ (a : UInt8) : UInt8 := (a >>> 2) &&& (0x3f : UInt8)

/-- The next six bits.  The second byte is not there in the last round of a string
with one byte left, and then counts as zero. -/
def sextet₂ (a b : UInt8) : UInt8 :=
  ((a <<< 4) &&& (0x30 : UInt8)) ||| ((b >>> 4) &&& (0x0f : UInt8))

/-- The next six bits. -/
def sextet₃ (b c : UInt8) : UInt8 :=
  ((b <<< 2) &&& (0x3c : UInt8)) ||| ((c >>> 6) &&& (0x03 : UInt8))

/-- The last six bits. -/
def sextet₄ (c : UInt8) : UInt8 := c &&& 0x3f

/-- `base64_encode`: the string in `dest`, for the string `src`. -/
def base64Encode : List UInt8 → List UInt8
  | [] => []
  | [a] => [base64At (sextet₁ a), base64At (sextet₂ a 0), endChar, endChar]
  | [a, b] => [base64At (sextet₁ a), base64At (sextet₂ a b), base64At (sextet₃ b 0), endChar]
  | a :: b :: c :: src =>
      base64At (sextet₁ a) :: base64At (sextet₂ a b) :: base64At (sextet₃ b c) ::
        base64At (sextet₄ c) :: base64Encode src

/-- Four bytes are written for each three, and for the rest. -/
theorem length_base64Encode (src : List UInt8) :
    (base64Encode src).length = 4 * ((src.length + 2) / 3) := by
  induction src using base64Encode.induct with
  | case1 => rfl
  | case2 a => simp [base64Encode]
  | case3 a b => simp [base64Encode]
  | case4 a b c src ih =>
      rw [base64Encode]
      simp only [List.length_cons, ih]
      omega

theorem base64At_ne_newline (ind : UInt8) : base64At ind ≠ 10 := by
  intro h
  have hmem : base64At ind ∈ 0 :: base64char := by
    rw [base64At, List.getD_eq_getElem?_getD]
    cases hget : base64char[ind.toNat]? with
    | none => exact List.mem_cons_self ..
    | some b => exact List.mem_cons_of_mem _ (List.mem_of_getElem? hget)
  rw [h] at hmem
  exact absurd hmem (by decide)

/-- What is written is one line. -/
theorem newline_not_mem_base64Encode (src : List UInt8) : 10 ∉ base64Encode src := by
  induction src using base64Encode.induct with
  | case1 => simp [base64Encode]
  | case2 a => simp [base64Encode, endChar, (base64At_ne_newline _).symm]
  | case3 a b => simp [base64Encode, endChar, (base64At_ne_newline _).symm]
  | case4 a b c src ih => simp [base64Encode, ih, (base64At_ne_newline _).symm]

end IotEdge
