import IotEdge.Lib.CString
import IotEdge.Lib.Literal

/-!
# `sscanf`

The conversions `%u` and `%lf` of `sscanf`, on the bytes of a string.  White space
in a format matches any white space, also none.  The two conversions skip white
space too, and any other byte of a format matches itself.

C libraries differ in one point.  The input of a conversion is the longest text
that some number begins with.  When it is not a number itself, as in `1e+`, the
conversion fails by ISO C, while glibc takes the number before the unfinished
part.  `Library` has the two behaviours as a parameter.
-/

namespace Scanf

open Literal CString
open Decimal (isDigit stopsAt_cons)

/-- What depends on the library and the machine. -/
structure Library where
  /-- A number before an unfinished exponent is taken, as in glibc. -/
  lenient : Bool
  /-- The bits of `unsigned long`. -/
  longBits : ℕ
  /-- There are at least 32. -/
  le_longBits : 32 ≤ longBits

/-! ## `%u` -/

/-- `strtoul`, stored as an `unsigned int`.  It wraps a negated number and
saturates a large one. -/
def Library.toUnsigned (lib : Library) (sign : Sign) (n : ℕ) : UInt32 :=
  if 2 ^ lib.longBits ≤ n then UInt32.ofNat (2 ^ lib.longBits - 1)
  else if sign.isMinus then UInt32.ofNat (2 ^ lib.longBits - n)
  else UInt32.ofNat n

/-- The sign and the digits of an unsigned number, and the rest. -/
def readUnsigned (text : List UInt8) : Option ((Sign × List UInt8) × List UInt8) :=
  let rest := (readSign text).2
  if rest.takeWhile isDigit = [] then none
  else some (((readSign text).1, rest.takeWhile isDigit), rest.dropWhile isDigit)

/-- `%u`. -/
def Library.scanUnsigned (lib : Library) (text : List UInt8) : Option (UInt32 × List UInt8) :=
  (readUnsigned (skipSpace text)).map fun (digits, rest) =>
    (lib.toUnsigned digits.1 (Decimal.value digits.2), rest)

/-- A digit is no white space. -/
theorem isSpace_of_isDigit (b : UInt8) (h : isDigit b = true) : isSpace b = false := by
  rw [isSpace, decide_eq_false_iff_not]
  rintro (rfl | hspace)
  · cases h
  · have hdigit := of_decide_eq_true h
    simp only [UInt8.le_iff_toNat_le] at hspace hdigit
    have h13 : (13 : UInt8).toNat = 13 := rfl
    have h48 : (48 : UInt8).toNat = 48 := rfl
    omega

/-- `strtol` in base 10: the number at the front of a text, or `0`.  It saturates. -/
def strtol (longBits : ℕ) (text : List UInt8) : ℤ :=
  let number := readSign (skipSpace text)
  let n := Decimal.value (number.2.takeWhile isDigit)
  if number.1.isMinus then max (-n) (-2 ^ (longBits - 1)) else min n (2 ^ (longBits - 1) - 1)

/-- Digits are read as their number. -/
theorem strtol_digits {longBits n : ℕ} (h : n < 2 ^ (longBits - 1)) :
    strtol longBits (Decimal.digits n) = n := by
  have hdigits : ∀ b ∈ Decimal.digits n, isDigit b = true :=
    fun _ hb => Decimal.isDigit_of_mem_digits hb
  obtain ⟨b, ds, hb⟩ := List.exists_cons_of_ne_nil (Decimal.digits_ne_nil n)
  have hfirst : isDigit b = true := hdigits b (hb ▸ List.mem_cons_self ..)
  have hsign : readSign (skipSpace (Decimal.digits n)) = (.none, Decimal.digits n) := by
    rw [hb, skipSpace_cons (isSpace_of_isDigit b hfirst)]
    exact readSign_append .none (stopsAt_cons.mpr (isSign_of_isDigit b hfirst))
  have htake : (Decimal.digits n).takeWhile isDigit = Decimal.digits n :=
    List.takeWhile_eq_self_iff.mpr hdigits
  simp only [strtol, hsign, htake, Decimal.value_digits, Sign.isMinus, Bool.false_eq_true, if_false]
  have hlt : (n : ℤ) < 2 ^ (longBits - 1) := by exact_mod_cast h
  omega

/-- A number that fits is not changed. -/
theorem Library.toUnsigned_of_lt (lib : Library) {n : ℕ} (h : n < 2 ^ 32) :
    lib.toUnsigned .none n = UInt32.ofNat n := by
  have hle : 2 ^ 32 ≤ 2 ^ lib.longBits := Nat.pow_le_pow_right (by decide) lib.le_longBits
  rw [toUnsigned, if_neg (by omega)]
  rfl

/-! ## `%lf` -/

/-- A hexadecimal digit. -/
def isHexDigit (b : UInt8) : Bool := isDigit b ∨ (97 ≤ b ∧ b ≤ 102) ∨ (65 ≤ b ∧ b ≤ 70)

/-- The value of a hexadecimal digit. -/
def hexDigitVal (b : UInt8) : ℕ :=
  if isDigit b then b.toNat - 48 else if 97 ≤ b then b.toNat - 87 else b.toNat - 55

/-- The number that hexadecimal digits write. -/
def hexValue (ds : List UInt8) : ℕ := ds.foldl (fun n b => 16 * n + hexDigitVal b) 0

/-- `p` or `P`. -/
def isP (b : UInt8) : Bool := b = 112 ∨ b = 80

/-- What `%lf` reads. -/
inductive Numeral where
  /-- A decimal literal. -/
  | decimal (n : Number)
  /-- A hexadecimal number. -/
  | hex (sign : Sign) (body : Body isHexDigit isP)
  /-- `inf` or `infinity`. -/
  | infinity (sign : Sign)
  | nan (sign : Sign)

/-- The result of `strtod`. -/
def Numeral.toBits : Numeral → Binary64.Bits
  | .decimal n => n.toBits
  | .hex sign body => scale sign.isMinus (hexValue body.mantissa.digits) 2
      (body.exponentValue - 4 * body.places)
  | .infinity sign => Binary64.infinity sign.isMinus
  | .nan sign => Binary64.quietNaN sign.isMinus

/-- What is found at the front of a text. -/
structure Scanned where
  /-- The number. -/
  numeral : Numeral
  /-- The input is a number, and not only the beginning of one. -/
  finished : Bool
  /-- The text behind the input. -/
  rest : List UInt8

/-- `0`, with a sign. -/
def zero (sign : Sign) : Number where
  sign := sign
  body.mantissa := ⟨[48], none, fun _ hb => List.mem_singleton.mp hb ▸ rfl,
    fun _ hb => absurd hb List.not_mem_nil, List.cons_ne_nil _ _⟩
  body.exponent := none

/-- The text behind `0x`. -/
def hexRest : List UInt8 → Option (List UInt8)
  | a :: x :: rest => if a = 48 ∧ (x = 120 ∨ x = 88) then some rest else none
  | _ => none

/-- A number, and whether an unfinished exponent follows. -/
def finish {digit marker : UInt8 → Bool} (numeral : Numeral) (body : Body digit marker)
    (rest : List UInt8) : Scanned :=
  if body.exponent.isNone ∧ rest.head?.any marker then ⟨numeral, false, (readSign rest.tail).2⟩
  else ⟨numeral, true, rest⟩

/-- A hexadecimal number, behind `0x`.  Where there is no digit, the point still
belongs to the input, and the number before it is the `0`. -/
def readHex (sign : Sign) (text : List UInt8) : Option Scanned :=
  match readBody isHexDigit isP text with
  | some (body, rest) => some (finish (.hex sign body) body rest)
  | none => if text.head? = some 46 then some ⟨.decimal (zero sign), false, text.tail⟩ else none

/-- `tolower`. -/
def toLower (b : UInt8) : UInt8 := if 65 ≤ b ∧ b ≤ 90 then b + 32 else b

/-- The bytes of `nan(...)`. -/
def isNChar (b : UInt8) : Bool :=
  isDigit b ∨ (97 ≤ b ∧ b ≤ 122) ∨ (65 ≤ b ∧ b ≤ 90) ∨ b = 95

/-- `inf`, `infinity` or `nan`.  glibc does not look at a parenthesis behind
`nan`, and by ISO C it has to be closed. -/
def readWord (lenient : Bool) (sign : Sign) (text : List UInt8) : Option Scanned :=
  let word := text.map toLower
  if ascii "nan" <+: word then
    if lenient = false ∧ (text.drop 3).head? = some 40 then
      let rest := (text.drop 4).dropWhile isNChar
      if rest.head? = some 41 then some ⟨.nan sign, true, rest.tail⟩ else none
    else some ⟨.nan sign, true, text.drop 3⟩
  else if ascii "infinity" <+: word then some ⟨.infinity sign, true, text.drop 8⟩
  else if ascii "inf" <+: word ∧ ¬ ascii "infi" <+: word then
    some ⟨.infinity sign, true, text.drop 3⟩
  else none

/-- The number at the front of a text. -/
def scanNumeral (lenient : Bool) (text : List UInt8) : Option Scanned :=
  let sign := (readSign text).1
  let rest := (readSign text).2
  match hexRest rest with
  | some digits => readHex sign digits
  | none =>
      match readBody isDigit isE rest with
      | some (body, rest') => some (finish (.decimal ⟨sign, body⟩) body rest')
      | none => readWord lenient sign rest

/-- A numeral that is converted: a number before an unfinished part is taken by a
lenient library only. -/
def Library.Converts (lib : Library) (found : Scanned) : Prop :=
  found.finished = true ∨ lib.lenient = true

instance (lib : Library) (found : Scanned) : Decidable (lib.Converts found) :=
  inferInstanceAs (Decidable (_ ∨ _))

/-- `%lf`. -/
def Library.scanDouble (lib : Library) (text : List UInt8) :
    Option (Binary64.Bits × List UInt8) :=
  match scanNumeral lib.lenient (skipSpace text) with
  | some found =>
      if lib.Converts found then some (found.numeral.toBits, found.rest) else none
  | none => none

/-! ## Numerals and literals -/

/-- The longest decimal literal that a numeral begins with. -/
def Numeral.literal : Numeral → Option Number
  | .decimal n => some n
  | .hex sign _ => some (zero sign)
  | .infinity _ | .nan _ => none

@[simp] theorem numeral_finish {digit marker : UInt8 → Bool} (numeral : Numeral)
    (body : Body digit marker) (rest : List UInt8) :
    (finish numeral body rest).numeral = numeral := by
  rw [finish]
  split <;> rfl

/-- The literal in front of an `x` is `0`. -/
theorem longest_of_hexRest {text digits : List UInt8}
    (h : hexRest (readSign text).2 = some digits) : Longest text (zero (readSign text).1) := by
  have hbytes := bytes_readSign text
  generalize hsign : (readSign text).1 = sign at *
  generalize (readSign text).2 = rest at *
  match rest, h with
  | a :: x :: rest, h =>
      rw [hexRest] at h
      split at h
      next hax =>
        obtain ⟨rfl, hx⟩ := hax
        have hends : (zero sign).body.Ends (x :: rest) := by
          rcases hx with rfl | rfl
          · exact ⟨⟨stopsAt_cons.mpr rfl, fun _ => stopsAt_cons.mpr rfl⟩, rfl⟩
          · exact ⟨⟨stopsAt_cons.mpr rfl, fun _ => stopsAt_cons.mpr rfl⟩, rfl⟩
        have hread := readNumber_append (zero sign) hends
        rw [← hbytes]
        refine longest_iff.mpr ⟨x :: rest, ?_⟩
        rw [← hread, Number.bytes, List.append_assoc]
        rfl
      next => cases h

theorem literal_of_readHex {sign : Sign} {text : List UInt8} {found : Scanned}
    (h : readHex sign text = some found) : found.numeral.literal = some (zero sign) := by
  rw [readHex] at h
  split at h
  next =>
    cases h
    rw [numeral_finish]
    rfl
  next =>
    split at h
    next => cases h; rfl
    next => cases h

theorem literal_of_readWord {lenient : Bool} {sign : Sign} {text : List UInt8} {found : Scanned}
    (h : readWord lenient sign text = some found) : found.numeral.literal = none := by
  simp only [readWord] at h
  split at h
  next =>
    split at h
    next =>
      split at h
      next => cases h; rfl
      next => cases h
    next => cases h; rfl
  next =>
    split at h
    next => cases h; rfl
    next =>
      split at h
      next => cases h; rfl
      next => cases h

/-- The longest literal of a text, by what `%lf` finds in it. -/
theorem longest_iff_literal {lenient : Bool} {text : List UInt8} {found : Scanned}
    (h : scanNumeral lenient text = some found) {n : Number} :
    Longest text n ↔ found.numeral.literal = some n := by
  simp only [scanNumeral] at h
  split at h
  next digits hhex =>
    rw [literal_of_readHex h, Option.some.injEq]
    have hzero := longest_of_hexRest hhex
    constructor
    · exact fun hn => longest_unique hzero hn
    · rintro rfl
      exact hzero
  next =>
    split at h
    next body rest hbody =>
      cases h
      have hread : readNumber text = some (⟨(readSign text).1, body⟩, rest) := by
        rw [readNumber, hbody]
        rfl
      rw [numeral_finish, longest_iff, hread, Numeral.literal]
      simp
    next hbody =>
      have hread : readNumber text = none := by
        rw [readNumber, hbody]
        rfl
      rw [literal_of_readWord h]
      exact iff_of_false (not_longest_of_readNumber hread n) (by simp)

/-- A literal without an `x` behind its `0` is found as it stands. -/
theorem scanNumeral_of_readNumber {lenient : Bool} {text rest : List UInt8} {n : Number}
    (h : readNumber text = some (n, rest)) (hhex : hexRest (readSign text).2 = none) :
    scanNumeral lenient text = some (finish (.decimal n) n.body rest) := by
  obtain ⟨⟨body, rest'⟩, hbody, hn⟩ := Option.map_eq_some_iff.mp h
  cases hn
  rw [scanNumeral]
  dsimp only
  rw [hhex]
  dsimp only
  rw [hbody]

/-- Where `%lf` finds nothing there is no literal either, but for the `0` of a
`0x` without digits. -/
theorem longest_iff_of_none {lenient : Bool} {text : List UInt8}
    (h : scanNumeral lenient text = none) {n : Number} :
    Longest text n ↔ hexRest (readSign text).2 ≠ none ∧ n = zero (readSign text).1 := by
  simp only [scanNumeral] at h
  split at h
  next digits hhex =>
    have hzero := longest_of_hexRest hhex
    rw [hhex]
    constructor
    · exact fun hn => ⟨by simp, (longest_unique hzero hn).symm⟩
    · rintro ⟨-, rfl⟩
      exact hzero
  next hhex =>
    split at h
    next => cases h
    next hbody =>
      have hread : readNumber text = none := by
        rw [readNumber, hbody]
        rfl
      rw [hhex]
      exact iff_of_false (not_longest_of_readNumber hread n) (by simp)

/-! ## Formats -/

/-- A directive of a format. -/
inductive Directive where
  /-- White space. -/
  | space
  /-- Any other byte. -/
  | byte (b : UInt8)
  /-- `%u`. -/
  | unsigned
  /-- `%lf`. -/
  | double
deriving DecidableEq, Repr

/-- The directives of a format string. -/
def directives : List UInt8 → List Directive
  | 37 :: 117 :: format => .unsigned :: directives format
  | 37 :: 108 :: 102 :: format => .double :: directives format
  | b :: format => (if isSpace b then .space else .byte b) :: directives format
  | [] => []

/-- A value that was assigned. -/
inductive Arg where
  /-- By `%u`. -/
  | unsigned (n : UInt32)
  /-- By `%lf`. -/
  | double (v : Binary64.Bits)
deriving DecidableEq

/-- The values that `sscanf` assigns.  Their number is what it returns. -/
def Library.sscanf (lib : Library) : List Directive → List UInt8 → List Arg
  | [], _ => []
  | .space :: format, text => lib.sscanf format (skipSpace text)
  | .byte b :: format, text =>
      match text with
      | [] => []
      | c :: rest => if c = b then lib.sscanf format rest else []
  | .unsigned :: format, text =>
      match lib.scanUnsigned text with
      | some (n, rest) => .unsigned n :: lib.sscanf format rest
      | none => []
  | .double :: format, text =>
      match lib.scanDouble text with
      | some (v, rest) => .double v :: lib.sscanf format rest
      | none => []

end Scanf
