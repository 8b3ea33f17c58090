import IotEdge.Gateway.ConfigLines

/-!
# The start-up password

`shadow_authenticate` reads the password with `fgets` and has three attempts.  An attempt
is a call of `fgets`, and a line that is longer than the buffer takes several of them.  Each
of its pieces is compared with the password as if it was a line (`authenticate_iff`).

What is compared ends at the first CR, LF or zero byte, and so a line that goes on behind
that byte can pass too.
-/

namespace IotEdge.PasswordAuth

open CString

/-! ## The source -/

/-- `TEST_PASSWORD`. -/
def testPassword : List UInt8 := ascii "123456"

/-- `MAX_ATTEMPTS`. -/
def maxAttempts : Nat := 3

/-- What is printed. -/
inductive Message where
  | banner
  | prompt
  | newline
  | accepted
  /-- The password is wrong, and some attempts are left. -/
  | wrong (attempts : Nat)
  | locked
  deriving DecidableEq, Repr

/-- The standard streams. -/
structure Terminal where
  /-- What can still be read. -/
  stdin : List UInt8
  /-- What was printed. -/
  stdout : List Message
  deriving DecidableEq, Repr

/-- A message more. -/
def Terminal.print (t : Terminal) (message : Message) : Terminal :=
  { t with stdout := t.stdout ++ [message] }

/-- The line that `fgets` with a buffer of `size` bytes stores, and what it leaves. `line` is
what it has stored so far. -/
def fgetsLine (size : Nat) : List UInt8 → List UInt8 → List UInt8 × List UInt8
  | line, [] => (line, [])
  | line, b :: text =>
      if b = 10 ∨ (line ++ [b]).length = size - 1 then (line ++ [b], text)
      else fgetsLine size (line ++ [b]) text

/-- `fgets`, which returns `NULL` at the end of the input. -/
def fgets (size : Nat) (stdin : List UInt8) : Option (List UInt8 × List UInt8) :=
  if stdin = [] then none else some (fgetsLine size [] stdin)

/-- The string that `password[strcspn(password, "\r\n")] = 0` leaves. -/
def strip (password : List UInt8) : List UInt8 :=
  (cstr password).takeWhile fun b => b ≠ 13 ∧ b ≠ 10

/-- The loop. -/
def authenticate : Nat → Terminal → Bool × Terminal
  | 0, t => (false, t)
  | attempts + 1, t =>
      let t := t.print .prompt
      match fgets 128 t.stdin with
      | none => (false, t)
      | some (password, stdin) =>
          let t := { t with stdin := stdin }.print .newline
          if strip password = testPassword then (true, t.print .accepted)
          else authenticate attempts (t.print (if 0 < attempts then .wrong attempts else .locked))

/-- `shadow_authenticate`. -/
def shadowAuthenticate (t : Terminal) : Bool × Terminal :=
  authenticate maxAttempts (t.print .banner)

@[simp] theorem Terminal.print_stdin (t : Terminal) (message : Message) :
    (t.print message).stdin = t.stdin := rfl

/-! ## Attempts -/

/-- The calls of `fgets` one after the other. -/
theorem fgetsLines_eq_cons {size : Nat} {line text : List UInt8} (h : line ≠ [] ∨ text ≠ []) :
    fgetsLines size line text =
      (fgetsLine size line text).1 :: fgetsLines size [] (fgetsLine size line text).2 := by
  induction text generalizing line with
  | nil =>
      have hline := h.resolve_right (not_not_intro rfl)
      rw [fgetsLines, if_neg hline]
      rfl
  | cons b text ih =>
      rw [fgetsLines, fgetsLine]
      split
      next => rfl
      next => exact ih (.inl (List.append_ne_nil_of_right_ne_nil _ (List.cons_ne_nil _ _)))

theorem flatten_fgetsLines (size : Nat) (line text : List UInt8) :
    (fgetsLines size line text).flatten = line ++ text := by
  induction text generalizing line with
  | nil =>
      rw [fgetsLines, List.append_nil]
      split
      next hline => rw [hline, List.flatten_nil]
      next => rw [List.flatten_singleton]
  | cons b text ih =>
      rw [fgetsLines]
      split
      next => rw [List.flatten_cons, ih, List.nil_append, List.append_assoc, List.singleton_append]
      next => rw [ih, List.append_assoc, List.singleton_append]

/-- A call of `fgets` reads nothing at the end of the input, and the next line elsewhere. -/
theorem fgets_cases (size : Nat) (stdin : List UInt8) :
    (fgets size stdin = none ∧ fgetsLines size [] stdin = []) ∨
    ∃ line rest, fgets size stdin = some (line, rest) ∧ stdin = line ++ rest ∧
      fgetsLines size [] stdin = line :: fgetsLines size [] rest := by
  rcases eq_or_ne stdin [] with rfl | hmore
  · exact .inl ⟨rfl, rfl⟩
  · have hlines : fgetsLines size [] stdin = _ := fgetsLines_eq_cons (.inr hmore)
    refine .inr ⟨_, _, if_neg hmore, ?_, hlines⟩
    have hstdin := flatten_fgetsLines size [] stdin
    rw [hlines, List.flatten_cons, flatten_fgetsLines, List.nil_append, List.nil_append] at hstdin
    exact hstdin.symm

/-- The loop compares what its calls of `fgets` store, and reads nothing else. -/
theorem authenticate_spec (attempts : Nat) (t : Terminal) :
    ((authenticate attempts t).1 = true ↔
      ∃ password ∈ (fgetsLines 128 [] t.stdin).take attempts, strip password = testPassword) ∧
    ∃ calls ≤ attempts, t.stdin =
      ((fgetsLines 128 [] t.stdin).take calls).flatten ++ (authenticate attempts t).2.stdin := by
  induction attempts generalizing t with
  | zero =>
      refine ⟨iff_of_false Bool.false_ne_true ?_, 0, Nat.le_refl 0, rfl⟩
      rintro ⟨password, hmem, -⟩
      cases hmem
  | succ attempts ih =>
      rw [authenticate]
      rcases fgets_cases 128 t.stdin with ⟨hend, hlines⟩ | ⟨password, rest, hread, hstdin, hlines⟩
      · rw [hlines, Terminal.print_stdin, hend]
        refine ⟨iff_of_false Bool.false_ne_true ?_, 0, Nat.zero_le _, rfl⟩
        rintro ⟨password, hmem, -⟩
        cases hmem
      · rw [hlines, Terminal.print_stdin, hread, List.take_succ_cons]
        dsimp only
        split
        next hpass =>
          refine ⟨iff_of_true rfl ⟨password, List.mem_cons_self, hpass⟩, 1, by omega, ?_⟩
          rw [List.take_succ_cons, List.take_zero, List.flatten_singleton]
          exact hstdin
        next hwrong =>
          -- only the messages depend on the attempts that are left
          generalize htail : Terminal.print _ (if 0 < attempts then _ else _) = t'
          have hrest : t'.stdin = rest := by rw [← htail]; rfl
          obtain ⟨haccepts, calls, hcalls, hleft⟩ := ih t'
          rw [hrest] at haccepts hleft
          refine ⟨haccepts.trans ?_, calls + 1, by omega, ?_⟩
          · rw [List.exists_mem_cons_iff, or_iff_right hwrong]
          · rw [List.take_succ_cons, List.flatten_cons, List.append_assoc, ← hleft]
            exact hstdin

/-! ## Lines and their pieces -/

/-- The lines of the input, with their terminators. -/
def lines (input : List UInt8) : List (List UInt8) := input.splitBy fun b _ => b ≠ 10

/-- A byte is removed from the end of a line. -/
def chomp (b : UInt8) (line : List UInt8) : List UInt8 :=
  if line.getLast? = some b then line.dropLast else line

/-- A line without its terminator, which is LF, CR LF or, at the end of the input, CR. -/
def lineText (line : List UInt8) : List UInt8 := chomp 13 (chomp 10 line)

/-- The pieces of a line that fit into the buffer. -/
def pieces (line : List UInt8) : List (List UInt8) :=
  (List.range ((line.length + 126) / 127)).map fun i => (line.drop (127 * i)).take 127

theorem pieces_eq_cons {line : List UInt8} (h : line ≠ []) :
    pieces line = line.take 127 :: pieces (line.drop 127) := by
  have hpos := List.length_pos_of_ne_nil h
  have hcount : (line.length + 126) / 127 = (line.length - 127 + 126) / 127 + 1 := by omega
  rw [pieces, hcount, List.range_succ_eq_map, List.map_cons, List.map_map, pieces,
    List.length_drop]
  refine congrArg _ (List.map_congr_left fun i _ => ?_)
  rw [List.drop_drop, Function.comp_apply, Nat.mul_succ, Nat.add_comm]

/-- The next piece of a line is read. -/
theorem fgetsLines_piece {stored line : List UInt8} (hline : 10 ∉ line.dropLast) (hne : line ≠ [])
    (hstored : stored.length < 127) :
    fgetsLines 128 stored line = (stored ++ line.take (127 - stored.length)) ::
      fgetsLines 128 [] (line.drop (127 - stored.length)) := by
  induction line generalizing stored with
  | nil => exact absurd rfl hne
  | cons b line ih =>
      obtain ⟨room, hroom⟩ : ∃ room, 127 - stored.length = room + 1 :=
        ⟨126 - stored.length, by omega⟩
      have hlength : (stored ++ [b]).length = stored.length + 1 := by simp
      rw [hroom, List.take_succ_cons, List.drop_succ_cons, fgetsLines]
      rcases eq_or_ne line [] with rfl | hmore
      · -- the line ends here
        rw [List.take_nil, List.drop_nil, fgetsLines, fgetsLines, if_pos rfl,
          if_neg (List.append_ne_nil_of_right_ne_nil _ (List.cons_ne_nil _ _)), ite_self]
      · rw [List.dropLast_cons_of_ne_nil hmore, List.mem_cons, not_or] at hline
        split
        next hend =>
          -- the buffer is full
          have hfull := hend.resolve_left (Ne.symm hline.1)
          have hzero : room = 0 := by omega
          rw [hzero, List.take_zero, List.drop_zero]
        next hend =>
          have hroom' : 127 - (stored ++ [b]).length = room := by omega
          rw [ih hline.2 hmore (by omega), hroom', List.append_assoc, List.singleton_append]

/-- A line is read piece by piece. -/
theorem fgetsLines_eq_pieces {line : List UInt8} (h : 10 ∉ line.dropLast) :
    fgetsLines 128 [] line = pieces line := by
  obtain ⟨n, hn⟩ : ∃ n, line.length = n := ⟨_, rfl⟩
  induction n using Nat.strong_induction_on generalizing line with
  | h n ih =>
      rcases eq_or_ne line [] with rfl | hne
      · rfl
      · have hpos := List.length_pos_of_ne_nil hne
        have hrest : 10 ∉ (line.drop 127).dropLast := fun hmem => h <| by
          rw [List.dropLast_drop_eq_drop_dropLast] at hmem
          exact List.mem_of_mem_drop hmem
        have hlt : (line.drop 127).length < n := by
          rw [List.length_drop]
          omega
        rw [fgetsLines_piece h hne (by decide), pieces_eq_cons hne]
        exact congrArg _ (ih _ hlt hrest rfl)

/-- A line has its newline at the end. -/
theorem not_mem_dropLast_of_isChain {line : List UInt8}
    (h : line.IsChain fun b _ => decide (b ≠ 10) = true) : 10 ∉ line.dropLast := by
  induction line with
  | nil => exact List.not_mem_nil
  | cons b line ih =>
      rcases eq_or_ne line [] with rfl | hmore
      · exact List.not_mem_nil
      · obtain ⟨c, line, rfl⟩ := List.exists_cons_of_ne_nil hmore
        rw [List.isChain_cons_cons, decide_eq_true_iff] at h
        rw [List.dropLast_cons_of_ne_nil hmore, List.mem_cons, not_or]
        exact ⟨h.1.symm, ih h.2⟩

/-- Behind a line that ends with a newline the next line is read. -/
theorem fgetsLines_flatten (size : Nat) {ls : List (List UInt8)}
    (h : ls.IsChain fun a b => ∃ (ha : a ≠ []) (_ : b ≠ []), a.getLast ha = 10) :
    fgetsLines size [] ls.flatten = ls.flatMap (fgetsLines size []) := by
  induction ls with
  | nil => rfl
  | cons line ls ih =>
      rw [List.flatten_cons, List.flatMap_cons]
      cases ls with
      | nil => rw [List.flatten_nil, List.append_nil, List.flatMap_nil, List.append_nil]
      | cons line' ls =>
          obtain ⟨⟨hne, -, hlast⟩, hrest⟩ := List.isChain_cons_cons.mp h
          have hline : line = line.dropLast ++ [10] := by
            rw [← hlast, List.dropLast_append_getLast]
          rw [hline, List.append_assoc, List.singleton_append, fgetsLines_newline, ih hrest]

/-- The input is read line by line. -/
theorem fgetsLines_lines (input : List UInt8) :
    fgetsLines 128 [] input = (lines input).flatMap pieces := by
  have hchain : (lines input).IsChain
      fun a b => ∃ (ha : a ≠ []) (_ : b ≠ []), a.getLast ha = 10 := by
    refine (List.isChain_getLast_head_splitBy _ input).imp ?_
    rintro a b ⟨ha, hb, hlast⟩
    exact ⟨ha, hb, not_not.mp (of_decide_eq_false hlast)⟩
  have hflatten : (lines input).flatten = input := List.flatten_splitBy _ input
  calc fgetsLines 128 [] input = fgetsLines 128 [] (lines input).flatten := by rw [hflatten]
    _ = (lines input).flatMap (fgetsLines 128 []) := fgetsLines_flatten 128 hchain
    _ = (lines input).flatMap pieces := List.flatMap_congr fun line hline =>
        fgetsLines_eq_pieces (not_mem_dropLast_of_isChain (List.isChain_of_mem_splitBy hline))

/-- What some calls of `fgets` read is in as many lines, as each line takes a call at least. -/
theorem take_flatMap_isPrefix {α β : Type*} {f : α → List β} {l : List α} (h : ∀ a ∈ l, f a ≠ [])
    (n : Nat) : (l.flatMap f).take n <+: (l.take n).flatMap f := by
  induction l generalizing n with
  | nil => rw [List.take_nil, List.flatMap_nil, List.take_nil]
  | cons a l ih =>
      cases n with
      | zero => exact List.nil_prefix
      | succ n =>
          obtain ⟨ha, hl⟩ := List.forall_mem_cons.mp h
          have hpos := List.length_pos_of_ne_nil ha
          rw [List.flatMap_cons, List.take_succ_cons, List.flatMap_cons, List.take_append]
          by_cases hlen : n + 1 ≤ (f a).length
          · rw [Nat.sub_eq_zero_of_le hlen, List.take_zero, List.append_nil]
            exact (List.take_prefix _ _).trans (List.prefix_append _ _)
          · rw [List.take_of_length_le (by omega), List.prefix_append_right_inj]
            exact (List.take_prefix_take_left (by omega)).trans (ih hl n)

/-! ## The password -/

/-- What is stripped begins with a word, up to the first byte that ends it. -/
theorem takeWhile_eq_iff {p : UInt8 → Bool} {text word : List UInt8} (hword : ∀ b ∈ word, p b) :
    text.takeWhile p = word ↔
      word <+: text ∧ ∀ b ∈ text[word.length]?, p b = false := by
  induction word generalizing text with
  | nil =>
      rw [List.takeWhile_eq_nil_iff]
      cases text with
      | nil => simp
      | cons b text => simp
  | cons c word ih =>
      obtain ⟨hc, hword⟩ := List.forall_mem_cons.mp hword
      cases text with
      | nil => simp
      | cons b text =>
          rw [List.takeWhile_cons, List.cons_prefix_cons, List.length_cons, List.getElem?_cons_succ]
          split
          next hb => rw [List.cons.injEq, ih hword, eq_comm, and_assoc, eq_comm (a := c)]
          next hb =>
            refine iff_of_false (List.cons_ne_nil _ _).symm ?_
            rintro ⟨⟨rfl, -⟩, -⟩
            exact hb hc

/-- A piece passes if it begins with the password, and ends there or goes on with CR, LF or a
zero byte. -/
def Passes (piece : List UInt8) : Prop :=
  testPassword <+: piece ∧ piece[testPassword.length]? ∈ [none, some 0, some 10, some 13]

instance (piece : List UInt8) : Decidable (Passes piece) := inferInstanceAs (Decidable (_ ∧ _))

theorem strip_eq_iff {piece : List UInt8} : strip piece = testPassword ↔ Passes piece := by
  rw [strip, cstr, List.takeWhile_takeWhile,
    takeWhile_eq_iff (List.all_eq_true.mp (by decide)), Passes]
  refine and_congr_right fun _ => ?_
  cases piece[testPassword.length]? with
  | none => simp
  | some b =>
      simp only [Option.mem_def, Option.some.injEq, forall_eq', decide_eq_false_iff_not,
        decide_eq_true_iff, List.mem_cons, reduceCtorEq, List.not_mem_nil, or_false, false_or]
      tauto

theorem chomp_eq_iff {b : UInt8} {line word : List UInt8} (h : word.getLast? ≠ some b) :
    chomp b line = word ↔ line = word ++ [b] ∨ line = word := by
  rw [chomp]
  split
  next hlast =>
    have hline := List.dropLast_append_getLast? b hlast
    constructor
    · rintro rfl
      exact .inl hline.symm
    · rintro (rfl | rfl)
      · exact List.dropLast_concat
      · exact absurd hlast h
  next hlast =>
    refine ⟨.inr, fun hline => hline.resolve_left ?_⟩
    rintro rfl
    exact hlast List.getLast?_concat

/-- The password as a line fits into the buffer, and passes. -/
theorem password_line {line : List UInt8} (h : lineText line = testPassword) :
    pieces line = [line] ∧ Passes line := by
  rw [lineText, chomp_eq_iff (by decide), chomp_eq_iff (by decide), chomp_eq_iff (by decide)] at h
  rcases h with (rfl | rfl) | (rfl | rfl) <;> decide

/-! ## Whole lines -/

/-- One of the first three lines is the password, and some pieces stand before it. -/
def PasswordBehind (input : List UInt8) (count : Nat) : Prop :=
  ∃ before line, before ++ [line] <+: (lines input).take 3 ∧ lineText line = testPassword ∧
    (before.flatMap pieces).length = count

/-- The first three lines decide, and no more than these is read. -/
def ChecksLines (t : Terminal) : Prop :=
  ((shadowAuthenticate t).1 = true ↔
    ∃ line ∈ (lines t.stdin).take 3, lineText line = testPassword) ∧
  ∃ read, t.stdin = read ++ (shadowAuthenticate t).2.stdin ∧
    read <+: ((lines t.stdin).take 3).flatten

theorem pieces_ne_nil {line : List UInt8} (h : line ≠ []) : pieces line ≠ [] := by
  rw [pieces_eq_cons h]
  exact List.cons_ne_nil _ _

theorem flatten_flatMap_pieces (ls : List (List UInt8))
    (h : ∀ line ∈ ls, 10 ∉ line.dropLast) : (ls.flatMap pieces).flatten = ls.flatten := by
  induction ls with
  | nil => rfl
  | cons line ls ih =>
      obtain ⟨hline, hls⟩ := List.forall_mem_cons.mp h
      rw [List.flatMap_cons, List.flatten_append, ih hls, ← fgetsLines_eq_pieces hline,
        flatten_fgetsLines, List.flatten_cons, List.nil_append]

theorem exists_line_iff {input : List UInt8} :
    (∃ line ∈ (lines input).take 3, lineText line = testPassword) ↔
      ∃ count, PasswordBehind input count := by
  constructor
  · rintro ⟨line, hmem, hline⟩
    obtain ⟨before, after, hsplit⟩ := List.append_of_mem hmem
    exact ⟨_, before, line, ⟨after, by rw [hsplit, List.append_assoc]; rfl⟩, hline, rfl⟩
  · rintro ⟨_, before, line, hlines, hline, -⟩
    exact ⟨line, hlines.subset (List.mem_append_right _ (List.mem_singleton_self line)), hline⟩

/-- A password that is among the first three pieces passes. -/
theorem PasswordBehind.passes {input : List UInt8} {count : Nat} (h : PasswordBehind input count)
    (hcount : count < 3) : ∃ piece ∈ ((lines input).flatMap pieces).take 3, Passes piece := by
  obtain ⟨before, line, hlines, hline, rfl⟩ := h
  obtain ⟨after, hsplit⟩ := hlines.trans (List.take_prefix 3 (lines input))
  obtain ⟨hpieces, hpasses⟩ := password_line hline
  refine ⟨line, ?_, hpasses⟩
  have hpiece : before.flatMap pieces ++ [line] <+: (lines input).flatMap pieces :=
    ⟨after.flatMap pieces, by
      rw [← hsplit, List.flatMap_append, List.flatMap_append, List.flatMap_singleton, hpieces]⟩
  have hlength : (before.flatMap pieces ++ [line]).length ≤ 3 := by
    rw [List.length_append, List.length_singleton]
    exact hcount
  exact (List.prefix_take_iff.mpr ⟨hpiece, hlength⟩).subset
    (List.mem_append_right _ (List.mem_singleton_self line))

/-- What is read is in the first three lines. -/
theorem read_isPrefix {input : List UInt8} {calls : Nat} (h : calls ≤ 3) :
    (((lines input).flatMap pieces).take calls).flatten <+: ((lines input).take 3).flatten := by
  have hne : ∀ line ∈ lines input, pieces line ≠ [] := fun line hline =>
    pieces_ne_nil (List.ne_nil_of_mem_splitBy hline)
  have hnewline : ∀ line ∈ (lines input).take 3, 10 ∉ line.dropLast := fun line hline =>
    not_mem_dropLast_of_isChain (List.isChain_of_mem_splitBy (List.mem_of_mem_take hline))
  rw [← flatten_flatMap_pieces _ hnewline]
  exact ((List.take_prefix_take_left h).trans (take_flatMap_isPrefix hne 3)).flatten

/-- Lines are checked just when the password stands among the first three pieces, or else a
piece passes just when the password comes too late. -/
theorem authenticate_iff (t : Terminal) : ChecksLines t ↔
    (∃ count < 3, PasswordBehind t.stdin count) ∨
      ((∃ piece ∈ ((lines t.stdin).flatMap pieces).take 3, Passes piece) ↔
        ∃ count ≥ 3, PasswordBehind t.stdin count) := by
  obtain ⟨haccepts, calls, hcalls, hrest⟩ := authenticate_spec maxAttempts (t.print .banner)
  rw [Terminal.print_stdin, fgetsLines_lines] at haccepts hrest
  have hread : ∃ read, t.stdin = read ++ (shadowAuthenticate t).2.stdin ∧
      read <+: ((lines t.stdin).take 3).flatten := ⟨_, hrest, read_isPrefix hcalls⟩
  simp only [strip_eq_iff] at haccepts
  rw [ChecksLines, and_iff_left hread, exists_line_iff, shadowAuthenticate, haccepts]
  by_cases hcount : ∃ count < 3, PasswordBehind t.stdin count
  · obtain ⟨count, hlt, hbehind⟩ := hcount
    exact iff_of_true (iff_of_true (hbehind.passes hlt) ⟨count, hbehind⟩)
      (.inl ⟨count, hlt, hbehind⟩)
  · have hlate : (∃ count, PasswordBehind t.stdin count) ↔
        ∃ count ≥ 3, PasswordBehind t.stdin count := by
      refine exists_congr fun count => ⟨fun h => ⟨?_, h⟩, And.right⟩
      exact Nat.le_of_not_lt fun hlt => hcount ⟨count, hlt, h⟩
    rw [or_iff_right hcount, hlate]
    rfl

/-- A line that goes on behind a CR is accepted. -/
theorem accepts_carriage_return : ¬ ∀ t : Terminal, ChecksLines t := by
  intro h
  exact absurd (h ⟨ascii "123456\rx\n", []⟩).1 (by decide)

end IotEdge.PasswordAuth
