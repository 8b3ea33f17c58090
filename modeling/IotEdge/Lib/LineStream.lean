import Mathlib

/-!
# Lines in a stream

A writer puts lines into a stream, each ended by a terminator.  A reader takes the
stream in chunks of any size and uses what a chunk holds before its first
terminator.  If the lines are not empty, the reader gets exactly the lines, in
some order, just when every chunk is one line (`perm_iff_isLine`).

The argument counts.  What the reader does not use of the chunks is as long as
there are lines, so every unused part is nothing but terminators.  Two of them
never stand side by side, so no unused part is longer than one.
-/

namespace LineStream

variable {α : Type*} (nl : α)

/-- The lines as they are written. -/
def stream (lines : List (List α)) : List α := (lines.map fun l => l ++ [nl]).flatten

/-- The chunk is one line. -/
def IsLine (chunk : List α) : Prop := ∃ l, nl ∉ l ∧ chunk = l ++ [nl]

variable {nl} in
@[simp] theorem stream_nil : stream nl [] = [] := rfl

variable {nl} in
@[simp] theorem stream_cons (l : List α) (lines : List (List α)) :
    stream nl (l :: lines) = l ++ nl :: stream nl lines := by
  simp [stream]

variable {nl} in
theorem stream_append (ls lines : List (List α)) :
    stream nl (ls ++ lines) = stream nl ls ++ stream nl lines := by
  simp [stream]

variable {nl} in
theorem length_stream (lines : List (List α)) :
    (stream nl lines).length = (lines.map List.length).sum + lines.length := by
  induction lines with
  | nil => rfl
  | cons l lines ih =>
      simp [ih]
      omega

variable [DecidableEq α]

/-- What the reader uses of a chunk. -/
def command (chunk : List α) : List α := chunk.takeWhile fun a => a ≠ nl

/-- What it does not use. -/
def unused (chunk : List α) : List α := chunk.dropWhile fun a => a ≠ nl

variable {nl}

variable (nl) in
theorem command_append_unused (chunk : List α) : command nl chunk ++ unused nl chunk = chunk :=
  List.takeWhile_append_dropWhile

theorem length_command_add (chunk : List α) :
    (command nl chunk).length + (unused nl chunk).length = chunk.length := by
  rw [← List.length_append, command_append_unused]

theorem not_mem_command (chunk : List α) : nl ∉ command nl chunk := by
  intro h
  simpa using List.mem_takeWhile_imp h

theorem command_append {l : List α} (h : nl ∉ l) (rest : List α) :
    command nl (l ++ nl :: rest) = l := by
  rw [command, List.takeWhile_append_of_pos]
  · simp
  · intro a ha
    exact decide_eq_true (ne_of_mem_of_not_mem ha h)

/-- The terminators of a chunk are in its unused part. -/
theorem count_eq (chunk : List α) : chunk.count nl = (unused nl chunk).count nl := by
  conv_lhs => rw [← command_append_unused nl chunk]
  rw [List.count_append, List.count_eq_zero_of_not_mem (not_mem_command chunk), Nat.zero_add]

/-- Lines without terminators can be read off their stream. -/
theorem stream_inj {ls lines : List (List α)} (hls : ∀ l ∈ ls, nl ∉ l)
    (hlines : ∀ l ∈ lines, nl ∉ l) (h : stream nl ls = stream nl lines) : ls = lines := by
  induction ls generalizing lines with
  | nil =>
      cases lines with
      | nil => rfl
      | cons l lines => simp at h
  | cons l ls ih =>
      cases lines with
      | nil => simp at h
      | cons l' lines =>
          rw [stream_cons, stream_cons] at h
          rw [List.forall_mem_cons] at hls hlines
          have hl := congrArg (command nl) h
          rw [command_append hls.1, command_append hlines.1] at hl
          rw [hl, List.append_cancel_left_eq, List.cons.injEq] at h
          rw [hl, ih hls.2 hlines.2 h.2]

omit [DecidableEq α] in
/-- The terminator of a line is its last element. -/
theorem isChain_line {l : List α} (h : nl ∉ l) :
    (l ++ [nl]).IsChain fun a b => ¬ (a = nl ∧ b = nl) := by
  induction l with
  | nil => exact List.isChain_singleton nl
  | cons a l ih =>
      rw [List.mem_cons, not_or] at h
      rw [List.cons_append, List.isChain_cons]
      exact ⟨fun _ _ hab => h.1 hab.1.symm, ih h.2⟩

omit [DecidableEq α] in
/-- Between two terminators there is a line, which is not empty. -/
theorem isChain_stream {lines : List (List α)} (h : ∀ l ∈ lines, l ≠ [] ∧ nl ∉ l) :
    (stream nl lines).IsChain fun a b => ¬ (a = nl ∧ b = nl) := by
  induction lines with
  | nil => exact List.isChain_nil
  | cons l lines ih =>
      rw [List.forall_mem_cons] at h
      have hsplit : stream nl (l :: lines) = (l ++ [nl]) ++ stream nl lines := by simp
      rw [hsplit, List.isChain_append]
      refine ⟨isChain_line h.1.2, ih h.2, fun a _ b hb hab => ?_⟩
      cases lines with
      | nil => cases hb
      | cons l' lines =>
          obtain ⟨hne, hnl⟩ := h.2 l' List.mem_cons_self
          obtain ⟨c, l'', rfl⟩ := List.exists_cons_of_ne_nil hne
          simp at hb
          exact hnl (by simp [hb, hab.2])

theorem count_stream {lines : List (List α)} (h : ∀ l ∈ lines, nl ∉ l) :
    (stream nl lines).count nl = lines.length := by
  induction lines with
  | nil => rfl
  | cons l lines ih =>
      rw [List.forall_mem_cons] at h
      simp [ih h.2, List.count_eq_zero_of_not_mem h.1]

/-- Numbers that are pairwise at most others, with the same sum, are the same. -/
theorem eq_of_sum_eq {β : Type*} {f g : β → ℕ} {l : List β} (hle : ∀ x ∈ l, f x ≤ g x)
    (hsum : (l.map f).sum = (l.map g).sum) : ∀ x ∈ l, f x = g x := by
  induction l with
  | nil => simp
  | cons y l ih =>
      rw [List.forall_mem_cons] at hle ⊢
      have htail : (l.map f).sum ≤ (l.map g).sum := List.sum_le_sum hle.2
      simp only [List.map_cons, List.sum_cons] at hsum
      exact ⟨by omega, ih hle.2 (by omega)⟩

omit [DecidableEq α] in
/-- Where no two terminators follow each other, there is at most one in a row. -/
theorem length_le_one_of_isChain {l : List α} (hchain : l.IsChain fun a b => ¬ (a = nl ∧ b = nl))
    (hall : ∀ a ∈ l, nl = a) : l.length ≤ 1 := by
  match l with
  | [] => simp
  | [_] => simp
  | a :: b :: _ =>
      have hfirst : a = nl := (hall a (by simp)).symm
      have hsecond : b = nl := (hall b (by simp)).symm
      exact absurd ⟨hfirst, hsecond⟩ (List.isChain_cons_cons.mp hchain).1

variable {chunks lines : List (List α)}

/-- The parts of the chunks make up the stream. -/
theorem sum_length_unused (hjoin : chunks.flatten = stream nl lines)
    (hperm : (chunks.map (command nl)).Perm lines) :
    (chunks.map fun c => (unused nl c).length).sum = lines.length := by
  have hcommands : (chunks.map fun c => (command nl c).length).sum =
      (lines.map List.length).sum := by
    rw [← (hperm.map List.length).sum_eq, List.map_map]
    rfl
  have hlength := congrArg List.length hjoin
  rw [List.length_flatten, length_stream, ← hcommands] at hlength
  have hsplit : (chunks.map List.length).sum = (chunks.map fun c => (command nl c).length).sum +
      (chunks.map fun c => (unused nl c).length).sum := by
    rw [← List.sum_map_add]
    simp only [length_command_add]
  omega

/-- Chunks that are lines are the stream of what is read from them. -/
theorem stream_map_command (h : ∀ c ∈ chunks, IsLine nl c) :
    stream nl (chunks.map (command nl)) = chunks.flatten := by
  rw [stream, List.map_map]
  congr 1
  refine (List.map_congr_left fun c hc => ?_).trans (List.map_id chunks)
  obtain ⟨l, hl, rfl⟩ := h c hc
  show command nl (l ++ [nl]) ++ [nl] = l ++ [nl]
  rw [command_append hl]

/-- Every unused part consists of terminators. -/
theorem count_unused (hlines : ∀ l ∈ lines, l ≠ [] ∧ nl ∉ l)
    (hjoin : chunks.flatten = stream nl lines) (hperm : (chunks.map (command nl)).Perm lines) :
    ∀ c ∈ chunks, (unused nl c).count nl = (unused nl c).length := by
  refine eq_of_sum_eq (fun c _ => List.count_le_length) ?_
  rw [sum_length_unused hjoin hperm, ← count_stream fun l hl => (hlines l hl).2, ← hjoin,
    List.count_flatten]
  exact congrArg List.sum (List.map_congr_left fun c _ => (count_eq c).symm)

/-- It is not longer than one. -/
theorem length_unused_le (hlines : ∀ l ∈ lines, l ≠ [] ∧ nl ∉ l)
    (hjoin : chunks.flatten = stream nl lines) (hperm : (chunks.map (command nl)).Perm lines) :
    ∀ c ∈ chunks, (unused nl c).length ≤ 1 := by
  intro c hc
  have hall := List.count_eq_length.mp (count_unused hlines hjoin hperm c hc)
  have hinfix : unused nl c <:+: stream nl lines := by
    rw [← hjoin]
    exact (List.dropWhile_suffix _).isInfix.trans (List.infix_of_mem_flatten hc)
  have hchain : (unused nl c).IsChain fun a b => ¬ (a = nl ∧ b = nl) := by
    obtain ⟨before, after, heq⟩ := hinfix
    exact (heq ▸ isChain_stream hlines).left_of_append.right_of_append
  exact length_le_one_of_isChain hchain hall

/-- So it is one terminator, as there is one for each line. -/
theorem unused_eq_singleton (hlines : ∀ l ∈ lines, l ≠ [] ∧ nl ∉ l)
    (hjoin : chunks.flatten = stream nl lines) (hperm : (chunks.map (command nl)).Perm lines) :
    ∀ c ∈ chunks, unused nl c = [nl] := by
  have hexact : ∀ c ∈ chunks, (unused nl c).length = 1 := by
    refine eq_of_sum_eq (length_unused_le hlines hjoin hperm) ?_
    rw [sum_length_unused hjoin hperm, ← hperm.length_eq]
    simp
  intro c hc
  obtain ⟨a, ha⟩ := List.length_eq_one_iff.mp (hexact c hc)
  have hcount := count_unused hlines hjoin hperm c hc
  have hnl : nl = a := List.count_eq_length.mp hcount a (by simp [ha])
  rw [ha, hnl]

/-- The reader gets exactly the lines just when every chunk is one line. -/
theorem perm_iff_isLine (hlines : ∀ l ∈ lines, l ≠ [] ∧ nl ∉ l)
    (hjoin : chunks.flatten = stream nl lines) :
    (chunks.map (command nl)).Perm lines ↔ ∀ c ∈ chunks, IsLine nl c := by
  constructor
  · intro hperm c hc
    refine ⟨command nl c, not_mem_command c, ?_⟩
    conv_lhs => rw [← command_append_unused nl c, unused_eq_singleton hlines hjoin hperm c hc]
  · intro hwhole
    have heq := stream_inj (fun l hl => by
      obtain ⟨c, -, rfl⟩ := List.mem_map.mp hl
      exact not_mem_command c) (fun l hl => (hlines l hl).2)
      ((stream_map_command hwhole).trans hjoin)
    exact List.Perm.of_eq heq

end LineStream
