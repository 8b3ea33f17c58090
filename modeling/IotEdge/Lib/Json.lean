import IotEdge.Lib.CString
import IotEdge.Lib.Literal

/-!
# JSON

A reader for JSON texts in ASCII.  Numbers are read as rational numbers, and strings
are kept as they are written between the quotes.

The three functions that call each other take a bound on the depth of the calls.
`parse` gives them more than a text can use, since of two calls one takes a byte.
The rules below, one for each production of the grammar, hold for any bound.
-/

namespace Json

open CString
open Literal (Number readNumber natural)

/-- A JSON value. -/
inductive Value where
  | null
  /-- `true` or `false`. -/
  | bool (b : Bool)
  /-- A number. -/
  | num (q : ℚ)
  /-- A string. -/
  | str (text : List UInt8)
  /-- An array. -/
  | arr (elements : List Value)
  /-- An object. -/
  | obj (members : List (List UInt8 × Value))

/-! ## The reader -/

/-- White space. -/
def isBlank (b : UInt8) : Bool := b = 32 ∨ b = 9 ∨ b = 10 ∨ b = 13

/-- The text behind white space. -/
def skipBlank (text : List UInt8) : List UInt8 := text.dropWhile isBlank

/-- A hexadecimal digit. -/
def isHex (b : UInt8) : Bool :=
  Decimal.isDigit b ∨ (97 ≤ b ∧ b ≤ 102) ∨ (65 ≤ b ∧ b ≤ 70)

/-- A byte that may stand behind a backslash, with this text behind it. -/
def escapes (b : UInt8) (rest : List UInt8) : Bool :=
  b ∈ ascii "\"\\/bfnrt" ∨ (b = 117 ∧ 4 ≤ rest.length ∧ (rest.take 4).all isHex)

/-- The text of a string up to the closing quote, and the rest.  With `true`, the
byte before the text was a backslash. -/
def readStringFrom : Bool → List UInt8 → Option (List UInt8 × List UInt8)
  | _, [] => none
  | true, b :: text =>
      if escapes b text then (readStringFrom false text).map fun (s, r) => (b :: s, r) else none
  | false, b :: text =>
      if b = 34 then some ([], text)
      else if b = 92 then (readStringFrom true text).map fun (s, r) => (b :: s, r)
      else if 32 ≤ b ∧ b < 127 then (readStringFrom false text).map fun (s, r) => (b :: s, r)
      else none

/-- The text of a string behind the opening quote, and the rest. -/
def readString (text : List UInt8) : Option (List UInt8 × List UInt8) := readStringFrom false text

/-- The literals that are JSON numbers: no plus, no zeros in front, and digits on
both sides of a point. -/
def IsNumber (n : Number) : Prop :=
  n.sign ≠ .plus ∧ n.body.mantissa.int ≠ [] ∧ n.body.mantissa.frac ≠ some [] ∧
    (n.body.mantissa.int.head? = some 48 → n.body.mantissa.int.length = 1)

instance (n : Number) : Decidable (IsNumber n) := inferInstanceAs (Decidable (_ ∧ _ ∧ _ ∧ _))

/-- The number at the front. -/
def readNum (text : List UInt8) : Option (Value × List UInt8) :=
  match readNumber text with
  | some (n, rest) => if IsNumber n then some (.num n.toRat, rest) else none
  | none => none

/-- A value that is one word. -/
def readWord (text : List UInt8) : Option (Value × List UInt8) :=
  ((after (ascii "null") text).map fun rest => (.null, rest)) <|>
  ((after (ascii "true") text).map fun rest => (.bool true, rest)) <|>
  ((after (ascii "false") text).map fun rest => (.bool false, rest))

/-- A comma, and then more follows, or the byte that closes. -/
def readSeparator (close : UInt8) (text : List UInt8) : Option (Bool × List UInt8) :=
  match skipBlank text with
  | [] => none
  | b :: rest => if b = 44 then some (true, rest) else if b = close then some (false, rest) else none

mutual

/-- The value at the front, and the rest. -/
def parseValue : ℕ → List UInt8 → Option (Value × List UInt8)
  | 0, _ => none
  | fuel + 1, text =>
      match skipBlank text with
      | [] => none
      | b :: rest =>
          if b = 123 then
            if (skipBlank rest).head? = some 125 then some (.obj [], (skipBlank rest).tail)
            else (parseMembers fuel rest).map fun (members, r) => (.obj members, r)
          else if b = 91 then
            if (skipBlank rest).head? = some 93 then some (.arr [], (skipBlank rest).tail)
            else (parseElements fuel rest).map fun (elements, r) => (.arr elements, r)
          else if b = 34 then (readString rest).map fun (s, r) => (.str s, r)
          else readWord (b :: rest) <|> readNum (b :: rest)

/-- The members of an object up to the closing brace, and the rest. -/
def parseMembers : ℕ → List UInt8 → Option (List (List UInt8 × Value) × List UInt8)
  | 0, _ => none
  | fuel + 1, text =>
      (after [34] (skipBlank text)).bind fun text =>
      (readString text).bind fun (name, text) =>
      (after [58] (skipBlank text)).bind fun text =>
      (parseValue fuel text).bind fun (value, text) =>
      (readSeparator 125 text).bind fun (more, text) =>
        if more then (parseMembers fuel text).map fun (members, r) => ((name, value) :: members, r)
        else some ([(name, value)], text)

/-- The elements of an array up to the closing bracket, and the rest. -/
def parseElements : ℕ → List UInt8 → Option (List Value × List UInt8)
  | 0, _ => none
  | fuel + 1, text =>
      (parseValue fuel text).bind fun (value, text) =>
      (readSeparator 93 text).bind fun (more, text) =>
        if more then (parseElements fuel text).map fun (elements, r) => (value :: elements, r)
        else some ([value], text)

end

/-- The value of a JSON text. -/
def parse (text : List UInt8) : Option Value :=
  (parseValue (2 * text.length + 2) text).bind fun (value, rest) =>
    if skipBlank rest = [] then some value else none

/-! ## Rules -/

/-- A byte that stands for itself in a string. -/
def isPlain (b : UInt8) : Bool := 32 ≤ b ∧ b < 127 ∧ b ≠ 34 ∧ b ≠ 92

theorem skipBlank_cons {b : UInt8} {text : List UInt8} (h : isBlank b = false) :
    skipBlank (b :: text) = b :: text := by
  rw [skipBlank, List.dropWhile_cons_of_neg (by simp [h])]

/-- A string without escapes. -/
theorem readString_append {name : List UInt8} (h : ∀ b ∈ name, isPlain b = true)
    (rest : List UInt8) : readString (name ++ 34 :: rest) = some (name, rest) := by
  induction name with
  | nil => rfl
  | cons b name ih =>
      obtain ⟨hlow, hhigh, hquote, hescape⟩ := of_decide_eq_true (h b (List.mem_cons_self ..))
      have hname := ih fun c hc => h c (List.mem_cons_of_mem _ hc)
      rw [readString] at hname ⊢
      rw [List.cons_append, readStringFrom, if_neg hquote, if_neg hescape, if_pos ⟨hlow, hhigh⟩,
        hname]
      rfl

/-- The bytes that a value other than a number may begin with. -/
def startsOther (b : UInt8) : Bool :=
  isBlank b ∨ b = 123 ∨ b = 91 ∨ b = 34 ∨ b = 110 ∨ b = 116 ∨ b = 102

theorem startsOther_of_isSign (b : UInt8) (h : Literal.isSign b = true) :
    startsOther b = false := by
  rcases of_decide_eq_true h with rfl | rfl <;> rfl

theorem startsOther_of_isDigit (b : UInt8) (h : Decimal.isDigit b = true) :
    startsOther b = false := by
  simp only [startsOther, isBlank, decide_eq_true_eq, decide_eq_false_iff_not, not_or]
  exact ⟨⟨Decimal.ne_of_isDigit h rfl, Decimal.ne_of_isDigit h rfl, Decimal.ne_of_isDigit h rfl,
    Decimal.ne_of_isDigit h rfl⟩, Decimal.ne_of_isDigit h rfl, Decimal.ne_of_isDigit h rfl,
    Decimal.ne_of_isDigit h rfl, Decimal.ne_of_isDigit h rfl, Decimal.ne_of_isDigit h rfl,
    Decimal.ne_of_isDigit h rfl⟩

/-- A word begins with its own letter. -/
theorem readWord_eq_none {b : UInt8} (h : startsOther b = false) (text : List UInt8) :
    readWord (b :: text) = none := by
  simp only [startsOther, decide_eq_false_iff_not, not_or] at h
  obtain ⟨-, -, -, -, hnull, htrue, hfalse⟩ := h
  have hword : ∀ (c : UInt8) (word : List UInt8), b ≠ c → after (c :: word) (b :: text) = none := by
    intro c word hne
    rw [after_cons]
    exact if_neg hne
  have h₁ : after (ascii "null") (b :: text) = none := hword 110 _ hnull
  have h₂ : after (ascii "true") (b :: text) = none := hword 116 _ htrue
  have h₃ : after (ascii "false") (b :: text) = none := hword 102 _ hfalse
  rw [readWord, h₁, h₂, h₃]
  rfl

/-- A number. -/
theorem parseValue_num {n : Number} {rest : List UInt8} (hn : IsNumber n)
    (hends : n.body.Ends rest) (fuel : ℕ) :
    parseValue (fuel + 1) (n.bytes ++ rest) = some (.num n.toRat, rest) := by
  have hstart := n.stopsAt startsOther_of_isSign startsOther_of_isDigit rfl rest
  have hread := Literal.readNumber_append n hends
  cases htext : n.bytes ++ rest with
  | nil =>
      rw [htext] at hread
      cases hread
  | cons b text =>
      rw [htext] at hread hstart
      have hb := Decimal.stopsAt_cons.mp hstart
      have hword := readWord_eq_none hb text
      simp only [startsOther, decide_eq_false_iff_not, not_or, Bool.not_eq_true] at hb
      obtain ⟨hblank, hobj, harr, hstr, -, -, -⟩ := hb
      rw [parseValue, skipBlank_cons hblank]
      dsimp only
      rw [if_neg hobj, if_neg harr, if_neg hstr, hword, readNum, hread]
      dsimp only
      rw [if_pos hn]
      rfl

/-- A member, and more behind a comma. -/
theorem parseMembers_cons {fuel : ℕ} {name text rest r : List UInt8} {value : Value}
    {members : List (List UInt8 × Value)} (hname : ∀ b ∈ name, isPlain b = true)
    (hvalue : parseValue fuel text = some (value, 44 :: rest))
    (hmembers : parseMembers fuel rest = some (members, r)) :
    parseMembers (fuel + 1) (34 :: (name ++ 34 :: 58 :: text)) =
      some ((name, value) :: members, r) := by
  rw [parseMembers, skipBlank_cons rfl]
  show (readString (name ++ 34 :: 58 :: text)).bind _ = _
  rw [readString_append hname]
  show (parseValue fuel text).bind _ = _
  rw [hvalue]
  show (parseMembers fuel rest).map _ = _
  rw [hmembers]
  rfl

/-- The last member. -/
theorem parseMembers_last {fuel : ℕ} {name text rest : List UInt8} {value : Value}
    (hname : ∀ b ∈ name, isPlain b = true)
    (hvalue : parseValue fuel text = some (value, 125 :: rest)) :
    parseMembers (fuel + 1) (34 :: (name ++ 34 :: 58 :: text)) = some ([(name, value)], rest) := by
  rw [parseMembers, skipBlank_cons rfl]
  show (readString (name ++ 34 :: 58 :: text)).bind _ = _
  rw [readString_append hname]
  show (parseValue fuel text).bind _ = _
  rw [hvalue]
  rfl

/-- White space in front of a member. -/
theorem parseMembers_blank (fuel : ℕ) {b : UInt8} (h : isBlank b = true) (text : List UInt8) :
    parseMembers fuel (b :: text) = parseMembers fuel text := by
  have hskip : skipBlank (b :: text) = skipBlank text := by
    rw [skipBlank, List.dropWhile_cons_of_pos h]
    rfl
  cases fuel with
  | zero => rfl
  | succ fuel => rw [parseMembers, parseMembers, hskip]

/-- An object with members. -/
theorem parseValue_obj {fuel : ℕ} {text r : List UInt8} {members : List (List UInt8 × Value)}
    (h : parseMembers fuel (34 :: text) = some (members, r)) :
    parseValue (fuel + 1) (123 :: 34 :: text) = some (.obj members, r) := by
  rw [parseValue, skipBlank_cons rfl]
  dsimp only
  rw [if_pos rfl, skipBlank_cons rfl, if_neg (by simp), h]
  rfl

/-- An element, and more behind a comma. -/
theorem parseElements_cons {fuel : ℕ} {text rest r : List UInt8} {value : Value}
    {elements : List Value} (hvalue : parseValue fuel text = some (value, 44 :: rest))
    (helements : parseElements fuel rest = some (elements, r)) :
    parseElements (fuel + 1) text = some (value :: elements, r) := by
  rw [parseElements, hvalue]
  show (parseElements fuel rest).map _ = _
  rw [helements]
  rfl

/-- The last element. -/
theorem parseElements_last {fuel : ℕ} {text rest : List UInt8} {value : Value}
    (hvalue : parseValue fuel text = some (value, 93 :: rest)) :
    parseElements (fuel + 1) text = some ([value], rest) := by
  rw [parseElements, hvalue]
  rfl

/-- An array with elements. -/
theorem parseValue_arr {fuel : ℕ} {b : UInt8} {text r : List UInt8} {elements : List Value}
    (hb : isBlank b = false) (hclose : b ≠ 93)
    (h : parseElements fuel (b :: text) = some (elements, r)) :
    parseValue (fuel + 1) (91 :: b :: text) = some (.arr elements, r) := by
  rw [parseValue, skipBlank_cons rfl]
  dsimp only
  rw [if_neg (by decide), if_pos rfl, skipBlank_cons hb, if_neg (by simpa using hclose), h]
  rfl

end Json
