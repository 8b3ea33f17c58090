import IotEdge.Gateway.Config

/-!
# The lines of the configuration

`fgets` cuts a line that is longer than the buffer into pieces, and `load_config` reads
each of them as a line.  The newline makes no difference, as it is trimmed.  So a file is
read line by line, and each line piece by piece (`readLines_line`), and a line that fits
into the buffer is one piece.

`setting` is the grammar of a line, and `Config.ofText` the configuration that the lines of
a text make.
-/

namespace IotEdge

open CString

/-! ## Settings -/

/-- The key and the value of a line.  A line is empty, a comment, or not a setting
otherwise. -/
def setting (line : List UInt8) : Option (List UInt8 × List UInt8) :=
  let text := trim line
  if text = [] ∨ text.head? = some 35 then none
  else if 61 ∈ text then
    some (trim (text.takeWhile (· ≠ 61)), trim (text.dropWhile (· ≠ 61)).tail)
  else none

/-- The fields are set in the order of the settings. -/
def Config.assignAll (c : Config) (settings : List (List UInt8 × List UInt8)) : Config :=
  settings.foldl (fun c s => c.assign s.1 s.2) c

/-- The configuration of a text. -/
def Config.ofText (text : List UInt8) : Config :=
  Config.zeroed.assignAll ((text.splitOn 10).filterMap setting)

/-- The body of the loop, by the grammar. -/
theorem Config.readLine_eq (c : Config) (line : List UInt8) :
    c.readLine line = c.assignAll (setting (cstr line)).toList := by
  simp only [Config.readLine, setting]
  split
  next => rfl
  next =>
    split
    next => rfl
    next hyes => rw [if_pos (not_not.mp hyes)]; rfl

/-- The loop of `load_config` over some lines. -/
def Config.readLines (c : Config) (lines : List (List UInt8)) : Config :=
  lines.foldl Config.readLine c

theorem loadConfig_eq (file : List UInt8) :
    loadConfig file = Config.zeroed.readLines (fgetsLines 512 [] file) := rfl

@[simp] theorem Config.readLines_nil (c : Config) : c.readLines [] = c := rfl

@[simp] theorem Config.readLines_cons (c : Config) (line : List UInt8)
    (lines : List (List UInt8)) : c.readLines (line :: lines) = (c.readLine line).readLines lines :=
  rfl

theorem Config.readLines_append (c : Config) (lines₁ lines₂ : List (List UInt8)) :
    c.readLines (lines₁ ++ lines₂) = (c.readLines lines₁).readLines lines₂ :=
  List.foldl_append

/-- The loop, by the grammar. -/
theorem Config.readLines_eq (c : Config) (lines : List (List UInt8)) :
    c.readLines lines = c.assignAll (lines.filterMap fun line => setting (cstr line)) := by
  induction lines generalizing c with
  | nil => rfl
  | cons line lines ih =>
      rw [readLines_cons, ih, readLine_eq, assignAll, assignAll, ← List.foldl_append,
        List.filterMap_cons]
      cases setting (cstr line) with
      | none => rfl
      | some s => rfl

theorem cstr_of_not_mem {s : List UInt8} (h0 : 0 ∉ s) : cstr s = s :=
  List.takeWhile_eq_self_iff.mpr fun _ hb => decide_eq_true (ne_of_mem_of_not_mem hb h0)

/-! ## The newline -/

theorem trim_append_newline (str : List UInt8) : trim (str ++ [10]) = trim str := by
  rw [trim, trim, skipSpace, skipSpace, List.dropWhile_append]
  split
  next hblank =>
    rw [List.isEmpty_iff.mp hblank]
    rfl
  next => rw [List.rdropWhile_concat_pos _ _ _ (by decide)]

theorem cstr_append_newline (str : List UInt8) :
    cstr (str ++ [10]) = cstr str ∨ cstr (str ++ [10]) = cstr str ++ [10] := by
  rw [cstr, cstr, List.takeWhile_append]
  split
  next hall =>
    rw [((List.takeWhile_prefix _).eq_of_length hall : str.takeWhile (· ≠ 0) = str)]
    exact .inr rfl
  next => exact .inl rfl

/-- The newline of a line is trimmed. -/
theorem Config.readLine_append_newline (c : Config) (line : List UInt8) :
    c.readLine (line ++ [10]) = c.readLine line := by
  have htrim : trim (cstr (line ++ [10])) = trim (cstr line) := by
    rcases cstr_append_newline line with h | h
    · rw [h]
    · rw [h, trim_append_newline]
  simp only [Config.readLine, htrim]

/-- An empty line is skipped. -/
theorem Config.readLine_nil (c : Config) : c.readLine [] = c := rfl

/-! ## The pieces of a line -/

/-- Behind a newline a new line begins. -/
theorem fgetsLines_newline (size : Nat) (line text rest : List UInt8) :
    fgetsLines size line (text ++ 10 :: rest) =
      fgetsLines size line (text ++ [10]) ++ fgetsLines size [] rest := by
  induction text generalizing line with
  | nil => simp [fgetsLines]
  | cons b text ih =>
      rw [List.cons_append, List.cons_append, fgetsLines, fgetsLines, ih, ih]
      split
      next => rfl
      next => rfl

/-- A line is read piece by piece. -/
theorem Config.readLines_piece (c : Config) {line : List UInt8} (hline : 10 ∉ line)
    (stored : List UInt8) :
    c.readLines (fgetsLines 512 stored (line ++ [10])) =
      c.readLines (fgetsLines 512 stored line) := by
  induction line generalizing c stored with
  | nil =>
      have hend : fgetsLines 512 stored [10] = [stored ++ [10]] := by simp [fgetsLines]
      rw [List.nil_append, hend, readLines_cons, readLine_append_newline, fgetsLines]
      split
      next hnil => rw [hnil, readLine_nil]
      next => rfl
  | cons b line ih =>
      have hrest := (List.mem_cons.not.mp hline |> not_or.mp).2
      rw [List.cons_append, fgetsLines, fgetsLines]
      split
      next => rw [readLines_cons, readLines_cons, ih _ hrest]
      next => exact ih c hrest _

theorem Config.readLines_line (c : Config) {line : List UInt8} (hline : 10 ∉ line)
    (text : List UInt8) :
    c.readLines (fgetsLines 512 [] (line ++ 10 :: text)) =
      (c.readLines (fgetsLines 512 [] line)).readLines (fgetsLines 512 [] text) := by
  rw [fgetsLines_newline, readLines_append, readLines_piece c hline]

/-- A line that fits into the buffer is one piece. -/
theorem fgetsLines_of_short {stored line : List UInt8} (hline : 10 ∉ line)
    (hstored : stored.length < 511) (hlen : stored.length + line.length ≤ 511) :
    fgetsLines 512 stored line = if stored ++ line = [] then [] else [stored ++ line] := by
  induction line generalizing stored with
  | nil => rw [fgetsLines, List.append_nil]
  | cons b line ih =>
      have hb := not_or.mp (List.mem_cons.not.mp hline)
      have hlength : (stored ++ [b]).length = stored.length + 1 := by simp
      have hassoc : stored ++ b :: line = stored ++ [b] ++ line := by simp
      rw [List.length_cons] at hlen
      rw [fgetsLines, hassoc]
      split
      next hend =>
        -- The last byte that fits.
        have hfull := hend.resolve_left (Ne.symm hb.1)
        have hnil : line = [] := List.eq_nil_of_length_eq_zero (by omega)
        rw [hnil, fgetsLines, if_pos rfl, List.append_nil, if_neg (by simp)]
      next hmore =>
        have hroom := (not_or.mp hmore).2
        exact ih hb.2 (by omega) (by omega)

theorem Config.readLines_of_short (c : Config) {line : List UInt8} (hline : 10 ∉ line)
    (hlen : line.length ≤ 511) : c.readLines (fgetsLines 512 [] line) = c.readLine line := by
  rw [fgetsLines_of_short hline (by decide) (by rwa [List.length_nil, Nat.zero_add]),
    List.nil_append]
  split
  next hnil => rw [hnil, readLine_nil, readLines_nil]
  next => rfl

/-- A text of lines that fit into the buffer is read line by line. -/
theorem Config.readLines_text (c : Config) {text : List UInt8} (h0 : 0 ∉ text)
    (hlen : ∀ line ∈ text.splitOn 10, line.length ≤ 511) :
    c.readLines (fgetsLines 512 [] text) = c.assignAll ((text.splitOn 10).filterMap setting) := by
  obtain ⟨n, hn⟩ : ∃ n, text.length = n := ⟨_, rfl⟩
  induction n using Nat.strong_induction_on generalizing c text with
  | h n ih =>
      by_cases hmem : 10 ∈ text
      · obtain ⟨line, rest, rfl, hline⟩ := List.eq_append_cons_of_mem hmem
        rw [List.splitOn_append_cons_self_of_not_mem hline] at hlen ⊢
        obtain ⟨hshort, hrest⟩ := List.forall_mem_cons.mp hlen
        obtain ⟨hline0, hrest0⟩ := not_or.mp (List.mem_append.not.mp h0)
        have hlt : rest.length < n := by
          rw [← hn, List.length_append, List.length_cons]
          omega
        rw [readLines_line c hline, readLines_of_short c hline hshort,
          ih _ hlt _ (List.not_mem_of_not_mem_cons hrest0) hrest rfl, readLine_eq,
          cstr_of_not_mem hline0, List.filterMap_cons]
        cases setting line with
        | none => rfl
        | some s => rfl
      · rw [List.splitOn_eq_singleton hmem] at hlen ⊢
        rw [readLines_of_short c hmem (hlen text (List.mem_singleton_self _)), readLine_eq,
          cstr_of_not_mem h0, List.filterMap_cons, List.filterMap_nil]
        cases setting text with
        | none => rfl
        | some s => rfl

/-- The configuration of a file of such lines. -/
theorem loadConfig_eq_ofText {file : List UInt8} (h0 : 0 ∉ file)
    (hlen : ∀ line ∈ file.splitOn 10, line.length ≤ 511) : loadConfig file = .ofText file :=
  Config.zeroed.readLines_text h0 hlen

end IotEdge
