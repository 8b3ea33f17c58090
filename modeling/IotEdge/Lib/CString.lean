import Mathlib

/-!
# Strings of bytes

A C string is the list of its bytes, without the terminator.  `ascii` is a string
constant.
-/

namespace CString

/-- The bytes of a string constant. -/
def ascii (s : String) : List UInt8 := s.toList.map fun c => UInt8.ofNat c.toNat

/-- `isspace`. -/
def isSpace (b : UInt8) : Bool := b = 32 ∨ (9 ≤ b ∧ b ≤ 13)

/-- The text behind white space. -/
def skipSpace (text : List UInt8) : List UInt8 := text.dropWhile isSpace

/-- The text behind the prefix `word`. -/
def after (word text : List UInt8) : Option (List UInt8) :=
  if word <+: text then some (text.drop word.length) else none

/-- `strstr`: the text from the first occurrence of `word` on. -/
def strstr (word : List UInt8) : List UInt8 → Option (List UInt8)
  | [] => if word = [] then some [] else none
  | b :: text => if word <+: b :: text then some (b :: text) else strstr word text

/-! ## White space -/

@[simp] theorem skipSpace_skipSpace (text : List UInt8) :
    skipSpace (skipSpace text) = skipSpace text := by
  rw [skipSpace, skipSpace, List.dropWhile_idempotent]

theorem skipSpace_cons {b : UInt8} {text : List UInt8} (h : isSpace b = false) :
    skipSpace (b :: text) = b :: text := by
  rw [skipSpace, List.dropWhile_cons_of_neg (by simp [h])]

theorem skipSpace_append {ws text : List UInt8} (hws : ∀ b ∈ ws, isSpace b = true) :
    skipSpace (ws ++ text) = skipSpace text := by
  rw [skipSpace, List.dropWhile_append_of_pos hws]
  rfl

/-- White space is all that is skipped. -/
theorem exists_skipSpace (text : List UInt8) :
    ∃ ws, (∀ b ∈ ws, isSpace b = true) ∧ text = ws ++ skipSpace text :=
  ⟨text.takeWhile isSpace, fun _ hb => List.mem_takeWhile_imp hb,
    List.takeWhile_append_dropWhile.symm⟩

/-! ## Prefixes and occurrences -/

theorem after_eq_some_iff {word text rest : List UInt8} :
    after word text = some rest ↔ text = word ++ rest := by
  rw [after]
  split
  next h =>
    obtain ⟨rest', rfl⟩ := h
    simp
  next h =>
    refine iff_of_false (by simp) ?_
    rintro rfl
    exact h (List.prefix_append _ _)

@[simp] theorem after_append (word rest : List UInt8) : after word (word ++ rest) = some rest :=
  after_eq_some_iff.mpr rfl

theorem after_nil (text : List UInt8) : after [] text = some text := after_append [] text

theorem after_cons (b : UInt8) (word : List UInt8) (text : List UInt8) :
    after (b :: word) text =
      match text with
      | [] => none
      | c :: rest => if c = b then after word rest else none := by
  cases text with
  | nil => simp [after]
  | cons c rest =>
      rcases eq_or_ne c b with rfl | hne
      · simp [after, List.cons_prefix_cons]
      · simp [after, List.cons_prefix_cons, hne, hne.symm]

/-- An occurrence is found. -/
theorem strstr_ne_none_iff {word text : List UInt8} : strstr word text ≠ none ↔ word <:+: text := by
  induction text with
  | nil => simp [strstr]
  | cons b text ih =>
      rw [strstr, List.infix_cons_iff, ← ih]
      split
      next h => simp [h]
      next h => simp [h]

/-- What is found begins with the word. -/
theorem prefix_of_strstr {word text found : List UInt8} (h : strstr word text = some found) :
    word <+: found := by
  induction text with
  | nil =>
      rw [strstr] at h
      split at h
      next hword => rw [hword]; exact List.nil_prefix
      next => cases h
  | cons b text ih =>
      rw [strstr] at h
      split at h
      next hword => cases h; exact hword
      next => exact ih h

/-- What is found is the rest of the text. -/
theorem suffix_of_strstr {word text found : List UInt8} (h : strstr word text = some found) :
    found <:+ text := by
  induction text with
  | nil =>
      rw [strstr] at h
      split at h
      next => cases h; exact List.suffix_refl _
      next => cases h
  | cons b text ih =>
      rw [strstr] at h
      split at h
      next => cases h; exact List.suffix_refl _
      next => exact (ih h).trans (List.suffix_cons b text)

/-- An occurrence stays the first one when the text is longer. -/
theorem strstr_append {word text found : List UInt8} (h : strstr word text = some found)
    (more : List UInt8) : strstr word (text ++ more) = some (found ++ more) := by
  induction text with
  | nil =>
      rw [strstr] at h
      split at h
      next hword =>
        cases h
        subst hword
        cases more <;> simp [strstr]
      next => cases h
  | cons b text ih =>
      rw [strstr] at h
      rw [List.cons_append, strstr]
      split at h
      next hword =>
        cases h
        have hmore : word <+: b :: (text ++ more) :=
          hword.trans (List.prefix_append (b :: text) more)
        rw [if_pos hmore]
        rfl
      next hword =>
        have hfound := ih h
        have hlen : word.length ≤ (b :: text).length := by
          have hsuffix := (strstr_ne_none_iff.mp (by simp [h] : strstr word text ≠ none)).length_le
          simp only [List.length_cons]
          omega
        rw [if_neg, hfound]
        intro hpre
        refine hword (List.prefix_of_prefix_length_le hpre ?_ hlen)
        exact List.prefix_append (b :: text) more

end CString
