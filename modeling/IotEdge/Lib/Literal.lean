import IotEdge.Lib.Decimal
import IotEdge.Lib.Binary64

/-!
# Number literals

`readNumber` reads a decimal literal from the front of a text, as much of it as
there is: a sign, digits with at most one point, an exponent.  A literal of the
text is `Longest` when no literal that the text begins with is longer.

The reader is greedy, one part after the other.  `longest_iff` says that this
finds the longest literal.  The two halves of that are `readNumber_append`, a
literal that the rest of the text cannot extend is read, and `exists_longer`, any
other literal is the beginning of a longer one.

Digits and exponent markers are parameters up to `Mantissa` and `Exponent`, since
a hexadecimal number has the same parts.
-/

namespace Literal

open Decimal (isDigit StopsAt stopsAt_cons stopsAt_nil stopsAt_dropWhile takeWhile_append
  dropWhile_append)

/-! ## Signs -/

/-- The sign in front of a number. -/
inductive Sign where
  /-- No sign. -/
  | none
  /-- `+`. -/
  | plus
  /-- `-`. -/
  | minus
deriving DecidableEq, Repr

/-- The text of a sign. -/
def Sign.bytes : Sign → List UInt8
  | .none => []
  | .plus => [43]
  | .minus => [45]

/-- The number is negated. -/
def Sign.isMinus : Sign → Bool
  | .minus => true
  | _ => false

/-- `+` or `-`. -/
def isSign (b : UInt8) : Bool := b = 43 ∨ b = 45

/-- The sign at the front, and the rest. -/
def readSign : List UInt8 → Sign × List UInt8
  | [] => (.none, [])
  | b :: text =>
      if b = 43 then (.plus, text)
      else if b = 45 then (.minus, text)
      else (.none, b :: text)

theorem isSign_of_isDigit (b : UInt8) (h : isDigit b = true) : isSign b = false := by
  rw [isSign, decide_eq_false_iff_not, not_or]
  exact ⟨Decimal.ne_of_isDigit h rfl, Decimal.ne_of_isDigit h rfl⟩

theorem readSign_append (sign : Sign) {text : List UInt8} (h : StopsAt isSign text) :
    readSign (sign.bytes ++ text) = (sign, text) := by
  cases sign with
  | plus => rfl
  | minus => rfl
  | none =>
      cases text with
      | nil => rfl
      | cons b text =>
          have hb := stopsAt_cons.mp h
          simp only [isSign, decide_eq_false_iff_not, not_or] at hb
          simp [Sign.bytes, readSign, hb.1, hb.2]

theorem bytes_readSign (text : List UInt8) :
    (readSign text).1.bytes ++ (readSign text).2 = text := by
  cases text with
  | nil => rfl
  | cons b text =>
      rw [readSign]
      split
      next h => rw [h]; rfl
      next =>
        split
        next h => rw [h]; rfl
        next => rfl

/-! ## Digits with a point -/

/-- Digits with at most one point between them, or at an end.  There is at least
one digit. -/
structure Mantissa (digit : UInt8 → Bool) where
  /-- The digits before the point. -/
  int : List UInt8
  /-- The digits after the point, if there is a point. -/
  frac : Option (List UInt8)
  /-- They are digits. -/
  isDigit_int : ∀ b ∈ int, digit b = true
  /-- They are digits. -/
  isDigit_frac : ∀ b ∈ frac.getD [], digit b = true
  /-- There is one. -/
  ne_nil : int ++ frac.getD [] ≠ []

/-- The point. -/
def isPoint (b : UInt8) : Bool := b = 46

/-- The text after the point, with the point. -/
def fracBytes : Option (List UInt8) → List UInt8
  | none => []
  | some ds => 46 :: ds

/-- The text of a mantissa. -/
def Mantissa.bytes {digit : UInt8 → Bool} (m : Mantissa digit) : List UInt8 :=
  m.int ++ fracBytes m.frac

/-- All digits, without the point. -/
def Mantissa.digits {digit : UInt8 → Bool} (m : Mantissa digit) : List UInt8 :=
  m.int ++ m.frac.getD []

/-- The digits behind a point, and the rest. -/
def readFrac (digit : UInt8 → Bool) : List UInt8 → Option (List UInt8) × List UInt8
  | [] => (none, [])
  | b :: text =>
      if isPoint b then (some (text.takeWhile digit), text.dropWhile digit)
      else (none, b :: text)

theorem isDigit_readFrac (digit : UInt8 → Bool) (text : List UInt8) :
    ∀ b ∈ (readFrac digit text).1.getD [], digit b = true := by
  cases text with
  | nil =>
      intro b hb
      cases hb
  | cons c text =>
      rw [readFrac]
      split
      next => exact fun b hb => List.mem_takeWhile_imp hb
      next =>
        intro b hb
        cases hb

/-- The mantissa at the front, and the rest. -/
def readMantissa (digit : UInt8 → Bool) (text : List UInt8) :
    Option (Mantissa digit × List UInt8) :=
  let fr := readFrac digit (text.dropWhile digit)
  if h : text.takeWhile digit ++ fr.1.getD [] ≠ [] then
    some (⟨text.takeWhile digit, fr.1, fun _ hb => List.mem_takeWhile_imp hb,
      isDigit_readFrac digit _, h⟩, fr.2)
  else none

/-- The text does not go on with more of the mantissa. -/
def Mantissa.Ends {digit : UInt8 → Bool} (m : Mantissa digit) (rest : List UInt8) : Prop :=
  StopsAt digit rest ∧ (m.frac = none → StopsAt isPoint rest)

section Mantissa

variable {digit : UInt8 → Bool}

theorem readFrac_append {frac : Option (List UInt8)} {rest : List UInt8}
    (hfrac : ∀ b ∈ frac.getD [], digit b = true) (hrest : StopsAt digit rest)
    (hpoint : frac = none → StopsAt isPoint rest) :
    readFrac digit (fracBytes frac ++ rest) = (frac, rest) := by
  cases frac with
  | some ds =>
      have hds : ∀ b ∈ ds, digit b = true := hfrac
      show (some ((ds ++ rest).takeWhile digit), (ds ++ rest).dropWhile digit) = _
      rw [takeWhile_append hds hrest, dropWhile_append hds hrest]
  | none =>
      cases rest with
      | nil => rfl
      | cons b rest =>
          have hb := stopsAt_cons.mp (hpoint rfl)
          simp [fracBytes, readFrac, hb]

theorem bytes_readFrac (text : List UInt8) :
    fracBytes (readFrac digit text).1 ++ (readFrac digit text).2 = text := by
  cases text with
  | nil => rfl
  | cons b text =>
      rw [readFrac]
      split
      next h =>
        rw [of_decide_eq_true h]
        exact congrArg (46 :: ·) List.takeWhile_append_dropWhile
      next => rfl

/-- A mantissa that the rest of the text cannot extend is read. -/
theorem readMantissa_append (m : Mantissa digit) {rest : List UInt8} (hpoint : digit 46 = false)
    (h : m.Ends rest) : readMantissa digit (m.bytes ++ rest) = some (m, rest) := by
  have hstop : StopsAt digit (fracBytes m.frac ++ rest) := by
    cases hfrac : m.frac with
    | none => exact h.1
    | some ds => exact stopsAt_cons.mpr hpoint
  have htake := takeWhile_append m.isDigit_int hstop
  have hdrop := dropWhile_append m.isDigit_int hstop
  have hread := readFrac_append m.isDigit_frac h.1 h.2
  rw [readMantissa, Mantissa.bytes, List.append_assoc]
  simp only [htake, hdrop, hread]
  rw [dif_pos m.ne_nil]

/-- What is read is at the front of the text. -/
theorem bytes_of_readMantissa {text rest : List UInt8} {m : Mantissa digit}
    (h : readMantissa digit text = some (m, rest)) : m.bytes ++ rest = text := by
  simp only [readMantissa] at h
  split at h
  next =>
    obtain ⟨rfl, rfl⟩ := Prod.mk.inj (Option.some.inj h)
    rw [Mantissa.bytes, List.append_assoc, bytes_readFrac]
    exact List.takeWhile_append_dropWhile
  next => cases h

end Mantissa

/-! ## Exponents -/

/-- A marker, a sign, and at least one decimal digit. -/
structure Exponent (marker : UInt8 → Bool) where
  /-- `e` or `p`, small or capital. -/
  mark : UInt8
  /-- The sign. -/
  sign : Sign
  /-- The digits. -/
  digits : List UInt8
  /-- It is a marker. -/
  marker_mark : marker mark = true
  /-- They are digits. -/
  isDigit_digits : ∀ b ∈ digits, isDigit b = true
  /-- There is one. -/
  ne_nil : digits ≠ []

/-- The text of an exponent. -/
def Exponent.bytes {marker : UInt8 → Bool} (e : Exponent marker) : List UInt8 :=
  e.mark :: (e.sign.bytes ++ e.digits)

/-- The number an exponent writes. -/
def Exponent.value {marker : UInt8 → Bool} (e : Exponent marker) : ℤ :=
  if e.sign.isMinus then -(Decimal.value e.digits : ℤ) else Decimal.value e.digits

/-- The exponent at the front, and the rest. -/
def readExponent (marker : UInt8 → Bool) : List UInt8 → Option (Exponent marker × List UInt8)
  | [] => none
  | b :: text =>
      let rest := (readSign text).2
      if h : marker b = true ∧ rest.takeWhile isDigit ≠ [] then
        some (⟨b, (readSign text).1, rest.takeWhile isDigit, h.1,
          fun _ hb => List.mem_takeWhile_imp hb, h.2⟩, rest.dropWhile isDigit)
      else none

section Exponent

variable {marker : UInt8 → Bool}

/-- An exponent that the rest of the text cannot extend is read. -/
theorem readExponent_append (e : Exponent marker) {rest : List UInt8}
    (h : StopsAt isDigit rest) : readExponent marker (e.bytes ++ rest) = some (e, rest) := by
  have hsign : StopsAt isSign (e.digits ++ rest) := by
    obtain ⟨b, ds, hds⟩ := List.exists_cons_of_ne_nil e.ne_nil
    rw [hds, List.cons_append, stopsAt_cons]
    exact isSign_of_isDigit b (e.isDigit_digits b (by simp [hds]))
  have hread : readSign (e.sign.bytes ++ e.digits ++ rest) = (e.sign, e.digits ++ rest) := by
    rw [List.append_assoc]
    exact readSign_append e.sign hsign
  have htake := takeWhile_append e.isDigit_digits h
  have hdrop := dropWhile_append e.isDigit_digits h
  rw [Exponent.bytes, List.cons_append, readExponent]
  simp only [hread, htake, hdrop]
  rw [dif_pos ⟨e.marker_mark, e.ne_nil⟩]

/-- What is read is at the front of the text, and all of it. -/
theorem bytes_of_readExponent {text rest : List UInt8} {e : Exponent marker}
    (h : readExponent marker text = some (e, rest)) :
    e.bytes ++ rest = text ∧ StopsAt isDigit rest := by
  cases text with
  | nil => cases h
  | cons b text =>
      simp only [readExponent] at h
      split at h
      next =>
        obtain ⟨rfl, rfl⟩ := Prod.mk.inj (Option.some.inj h)
        refine ⟨?_, stopsAt_dropWhile _ _⟩
        rw [Exponent.bytes, List.cons_append, List.append_assoc, List.takeWhile_append_dropWhile,
          bytes_readSign]
      next => cases h

end Exponent

/-! ## Numbers without a sign -/

/-- A mantissa, and an exponent or not. -/
structure Body (digit marker : UInt8 → Bool) where
  /-- The mantissa. -/
  mantissa : Mantissa digit
  /-- The exponent. -/
  exponent : Option (Exponent marker)

section Body

variable {digit marker : UInt8 → Bool}

/-- The text of an exponent, if there is one. -/
def exponentBytes : Option (Exponent marker) → List UInt8
  | none => []
  | some e => e.bytes

/-- The text of a body. -/
def Body.bytes (b : Body digit marker) : List UInt8 :=
  b.mantissa.bytes ++ exponentBytes b.exponent

/-- The body at the front, and the rest. -/
def readBody (digit marker : UInt8 → Bool) (text : List UInt8) :
    Option (Body digit marker × List UInt8) :=
  (readMantissa digit text).map fun (mantissa, rest) =>
    match readExponent marker rest with
    | some (e, rest') => (⟨mantissa, some e⟩, rest')
    | none => (⟨mantissa, none⟩, rest)

/-- The text does not go on with more of the body. -/
def Body.Ends (b : Body digit marker) (rest : List UInt8) : Prop :=
  match b.exponent with
  | none => b.mantissa.Ends rest ∧ readExponent marker rest = none
  | some _ => StopsAt isDigit rest

/-- A body that the rest of the text cannot extend is read. -/
theorem readBody_append (b : Body digit marker) {rest : List UInt8} (hpoint : digit 46 = false)
    (hmarker : ∀ c, marker c = true → digit c = false ∧ isPoint c = false) (h : b.Ends rest) :
    readBody digit marker (b.bytes ++ rest) = some (b, rest) := by
  obtain ⟨mantissa, exponent⟩ := b
  cases exponent with
  | none =>
      rw [Body.bytes, exponentBytes, List.append_nil, readBody,
        readMantissa_append mantissa hpoint h.1, Option.map_some]
      simp only [h.2]
  | some e =>
      have hends : mantissa.Ends (e.bytes ++ rest) :=
        ⟨stopsAt_cons.mpr (hmarker _ e.marker_mark).1,
          fun _ => stopsAt_cons.mpr (hmarker _ e.marker_mark).2⟩
      have hread := readExponent_append e (show StopsAt isDigit rest from h)
      rw [Body.bytes, exponentBytes, List.append_assoc, readBody,
        readMantissa_append mantissa hpoint hends, Option.map_some]
      simp only [hread]

/-- What is read is at the front of the text. -/
theorem bytes_of_readBody {text rest : List UInt8} {b : Body digit marker}
    (h : readBody digit marker text = some (b, rest)) : b.bytes ++ rest = text := by
  obtain ⟨⟨mantissa, rest₁⟩, hread, hb⟩ := Option.map_eq_some_iff.mp h
  have hmantissa := bytes_of_readMantissa hread
  dsimp only at hb
  split at hb
  next e rest₂ he =>
    cases hb
    rw [Body.bytes, exponentBytes, List.append_assoc, (bytes_of_readExponent he).1, hmantissa]
  next =>
    cases hb
    rw [Body.bytes, exponentBytes, List.append_nil, hmantissa]

theorem not_stopsAt_iff {p : UInt8 → Bool} {text : List UInt8} :
    ¬ StopsAt p text ↔ ∃ b rest, text = b :: rest ∧ p b = true := by
  cases text with
  | nil => simp [stopsAt_nil]
  | cons b text => simp [stopsAt_cons]

/-- A mantissa that the rest of the text extends is the beginning of a longer one. -/
theorem Mantissa.exists_longer (m : Mantissa digit) {rest : List UInt8} (h : ¬ m.Ends rest) :
    ∃ (m' : Mantissa digit) (b : UInt8) (rest' : List UInt8),
      rest = b :: rest' ∧ m'.bytes = m.bytes ++ [b] := by
  obtain ⟨int, frac, hint, hfrac, hne⟩ := m
  rcases not_and_or.mp h with hdigit | hpoint
  · obtain ⟨b, rest', rfl, hb⟩ := not_stopsAt_iff.mp hdigit
    cases frac with
    | none =>
        refine ⟨⟨int ++ [b], none, ?_, hfrac, by simp⟩, b, rest', rfl, ?_⟩
        · simpa [or_imp, forall_and, hb] using hint
        · simp [Mantissa.bytes, fracBytes]
    | some ds =>
        refine ⟨⟨int, some (ds ++ [b]), hint, ?_, by simp⟩, b, rest', rfl, ?_⟩
        · simpa [or_imp, forall_and, hb] using hfrac
        · simp [Mantissa.bytes, fracBytes]
  · obtain ⟨hnone, hrest⟩ := Classical.not_imp.mp hpoint
    obtain ⟨b, rest', rfl, hb⟩ := not_stopsAt_iff.mp hrest
    cases hnone
    refine ⟨⟨int, some [], hint, hfrac, hne⟩, b, rest', rfl, ?_⟩
    simp [Mantissa.bytes, fracBytes, of_decide_eq_true hb]

/-- A body that the rest of the text extends is the beginning of a longer one. -/
theorem Body.exists_longer (b : Body digit marker) {rest : List UInt8} (h : ¬ b.Ends rest) :
    ∃ (b' : Body digit marker) (more rest' : List UInt8),
      more ≠ [] ∧ rest = more ++ rest' ∧ b'.bytes = b.bytes ++ more := by
  obtain ⟨mantissa, exponent⟩ := b
  cases exponent with
  | none =>
      rcases not_and_or.mp h with hmantissa | hexponent
      · obtain ⟨m', c, rest', rfl, hm'⟩ := mantissa.exists_longer hmantissa
        exact ⟨⟨m', none⟩, [c], rest', by simp, rfl, by simp [Body.bytes, exponentBytes, hm']⟩
      · obtain ⟨⟨e, rest'⟩, he⟩ := Option.ne_none_iff_exists'.mp hexponent
        exact ⟨⟨mantissa, some e⟩, e.bytes, rest', by simp [Exponent.bytes],
          (bytes_of_readExponent he).1.symm, by simp [Body.bytes, exponentBytes]⟩
  | some e =>
      obtain ⟨c, rest', rfl, hc⟩ := not_stopsAt_iff.mp (show ¬ StopsAt isDigit rest from h)
      refine ⟨⟨mantissa, some { e with
        digits := e.digits ++ [c], isDigit_digits := ?_, ne_nil := by simp }⟩,
        [c], rest', by simp, rfl, by simp [Body.bytes, exponentBytes, Exponent.bytes]⟩
      simpa [or_imp, forall_and, hc] using e.isDigit_digits

end Body

/-! ## Decimal literals -/

/-- `e` or `E`. -/
def isE (b : UInt8) : Bool := b = 101 ∨ b = 69

/-- A decimal literal. -/
structure Number where
  /-- The sign. -/
  sign : Sign
  /-- The digits and the exponent. -/
  body : Body isDigit isE

/-- The double nearest to `n * base ^ e`. -/
def scale (neg : Bool) (n base : ℕ) (e : ℤ) : Binary64.Bits :=
  Binary64.ofFraction neg (n * base ^ e.toNat) (base ^ (-e).toNat)

/-- The exponent that is written, or none. -/
def Body.exponentValue {digit marker : UInt8 → Bool} (b : Body digit marker) : ℤ :=
  match b.exponent with
  | none => 0
  | some e => e.value

/-- The number of digits after the point. -/
def Body.places {digit marker : UInt8 → Bool} (b : Body digit marker) : ℕ :=
  (b.mantissa.frac.getD []).length

/-- The double nearest to the number that a literal writes. -/
def Number.toBits (n : Number) : Binary64.Bits :=
  scale n.sign.isMinus (Decimal.value n.body.mantissa.digits) 10
    (n.body.exponentValue - n.body.places)

/-- The number that a literal writes. -/
def Number.toRat (n : Number) : ℚ :=
  (if n.sign.isMinus then -1 else 1) * Decimal.value n.body.mantissa.digits *
    10 ^ (n.body.exponentValue - n.body.places)

/-- A whole number, without a sign. -/
def natural (n : ℕ) : Number where
  sign := .none
  body.mantissa :=
    { int := Decimal.digits n
      frac := none
      isDigit_int := fun _ h => Decimal.isDigit_of_mem_digits h
      isDigit_frac := by simp
      ne_nil := by simp [Decimal.digits_ne_nil] }
  body.exponent := none

/-- The text of a literal. -/
def Number.bytes (n : Number) : List UInt8 := n.sign.bytes ++ n.body.bytes

/-- The literal at the front, and the rest. -/
def readNumber (text : List UInt8) : Option (Number × List UInt8) :=
  (readBody isDigit isE (readSign text).2).map fun (body, rest) => (⟨(readSign text).1, body⟩, rest)

/-- The longest literal that the text begins with. -/
def Longest (text : List UInt8) (n : Number) : Prop :=
  n.bytes <+: text ∧ ∀ n' : Number, n'.bytes <+: text → n'.bytes.length ≤ n.bytes.length

theorem isE_not_digit (c : UInt8) (h : isE c = true) : isDigit c = false ∧ isPoint c = false := by
  rcases of_decide_eq_true h with rfl | rfl <;> decide

/-- A body begins with a digit or a point. -/
theorem Body.stopsAt {p : UInt8 → Bool} (hdigit : ∀ b, isDigit b = true → p b = false)
    (hpoint : p 46 = false) (b : Body isDigit isE) (rest : List UInt8) :
    StopsAt p (b.bytes ++ rest) := by
  obtain ⟨⟨int, frac, hint, hfrac, hne⟩, exponent⟩ := b
  rw [Body.bytes, Mantissa.bytes]
  cases int with
  | cons d int => exact stopsAt_cons.mpr (hdigit d (hint d (List.mem_cons_self ..)))
  | nil =>
      cases frac with
      | none => exact absurd rfl hne
      | some ds => exact stopsAt_cons.mpr hpoint

/-- A literal begins with a sign, a digit or a point. -/
theorem Number.stopsAt {p : UInt8 → Bool} (hsign : ∀ b, isSign b = true → p b = false)
    (hdigit : ∀ b, isDigit b = true → p b = false) (hpoint : p 46 = false) (n : Number)
    (rest : List UInt8) : StopsAt p (n.bytes ++ rest) := by
  obtain ⟨sign, body⟩ := n
  cases sign with
  | none => exact body.stopsAt hdigit hpoint rest
  | plus => exact stopsAt_cons.mpr (hsign 43 rfl)
  | minus => exact stopsAt_cons.mpr (hsign 45 rfl)

/-- A literal that the rest of the text cannot extend is read. -/
theorem readNumber_append (n : Number) {rest : List UInt8} (h : n.body.Ends rest) :
    readNumber (n.bytes ++ rest) = some (n, rest) := by
  have hsign : readSign (n.bytes ++ rest) = (n.sign, n.body.bytes ++ rest) := by
    rw [Number.bytes, List.append_assoc]
    exact readSign_append n.sign (n.body.stopsAt isSign_of_isDigit rfl rest)
  rw [readNumber, hsign, readBody_append n.body rfl isE_not_digit h]
  rfl

/-- What is read is at the front of the text. -/
theorem bytes_of_readNumber {text rest : List UInt8} {n : Number}
    (h : readNumber text = some (n, rest)) : n.bytes ++ rest = text := by
  obtain ⟨⟨body, rest'⟩, hread, hn⟩ := Option.map_eq_some_iff.mp h
  cases hn
  rw [Number.bytes, List.append_assoc, bytes_of_readBody hread, bytes_readSign]

/-- A literal that the rest of the text extends is the beginning of a longer one. -/
theorem Number.exists_longer (n : Number) {rest : List UInt8} (h : ¬ n.body.Ends rest) :
    ∃ n' : Number, n'.bytes <+: n.bytes ++ rest ∧ n.bytes.length < n'.bytes.length := by
  obtain ⟨body', more, rest', hmore, rfl, hbytes⟩ := n.body.exists_longer h
  have hlen := List.length_pos_iff.mpr hmore
  refine ⟨⟨n.sign, body'⟩, ⟨rest', ?_⟩, ?_⟩
  · simp [Number.bytes, hbytes]
  · simp only [Number.bytes, hbytes, List.length_append]
    omega

/-- Any longest literal is the one that is read. -/
theorem readNumber_of_longest {text : List UInt8} {n : Number} (h : Longest text n) :
    ∃ rest, readNumber text = some (n, rest) := by
  obtain ⟨⟨rest, rfl⟩, hmax⟩ := h
  refine ⟨rest, readNumber_append n ?_⟩
  by_contra hends
  obtain ⟨n', hn', hlt⟩ := n.exists_longer hends
  exact absurd (hmax n' hn') (by omega)

/-- A text that begins with a literal begins with a longest one. -/
theorem exists_longest {text : List UInt8} {n : Number} (h : n.bytes <+: text) :
    ∃ n₀, Longest text n₀ := by
  obtain ⟨n₀, hn₀, hmin⟩ := (measure fun n : Number => text.length - n.bytes.length).wf.has_min
    {n | n.bytes <+: text} ⟨n, h⟩
  refine ⟨n₀, hn₀, fun n' hn' => ?_⟩
  have hle : ¬ text.length - n'.bytes.length < text.length - n₀.bytes.length := hmin n' hn'
  have := hn₀.length_le
  have := hn'.length_le
  omega

/-- The reader finds the longest literal. -/
theorem longest_iff {text : List UInt8} {n : Number} :
    Longest text n ↔ ∃ rest, readNumber text = some (n, rest) := by
  constructor
  · exact readNumber_of_longest
  · rintro ⟨rest, hread⟩
    obtain ⟨n₀, hn₀⟩ := exists_longest ⟨rest, bytes_of_readNumber hread⟩
    obtain ⟨rest₀, hread₀⟩ := readNumber_of_longest hn₀
    rw [hread] at hread₀
    cases hread₀
    exact hn₀

theorem longest_unique {text : List UInt8} {n n' : Number} (h : Longest text n)
    (h' : Longest text n') : n = n' := by
  obtain ⟨rest, hread⟩ := longest_iff.mp h
  obtain ⟨rest', hread'⟩ := longest_iff.mp h'
  rw [hread] at hread'
  cases hread'
  rfl

/-- There is no literal where the reader finds none. -/
theorem not_longest_of_readNumber {text : List UInt8} (h : readNumber text = none) (n : Number) :
    ¬ Longest text n := by
  intro hn
  obtain ⟨rest, hread⟩ := longest_iff.mp hn
  rw [h] at hread
  cases hread

/-! ## Whole numbers -/

theorem bytes_natural (n : ℕ) : (natural n).bytes = Decimal.digits n := by
  simp [natural, Number.bytes, Sign.bytes, Body.bytes, Mantissa.bytes, fracBytes, exponentBytes]

theorem toRat_natural (n : ℕ) : (natural n).toRat = n := by
  simp [natural, Number.toRat, Sign.isMinus, Mantissa.digits, Body.exponentValue, Body.places]

end Literal
