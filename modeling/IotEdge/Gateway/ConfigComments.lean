import IotEdge.Gateway.ConfigLines

/-!
# Comments of the configuration

A comment is skipped by its first byte.  A comment that is longer than the buffer comes in
pieces, and the pieces behind the first are read as lines of their own.  So they set fields,
and `comment_unaffected_iff` says which comments can stand for each other.
-/

namespace IotEdge

open CString

/-- A field of `GatewayConfig`. -/
inductive ConfigField where
  | cloudIp
  | cloudPort
  | deviceId
  | apiKey
  | logPath
  | multicastIp
  | multicastPort
  | localIp
deriving DecidableEq, Repr

/-- What a field holds, a string or a number. -/
abbrev FieldValue := List UInt8 ⊕ Int32

namespace ConfigField

/-- The key of a field. -/
def key : ConfigField → List UInt8
  | cloudIp => ascii "CLOUD_IP"
  | cloudPort => ascii "CLOUD_PORT"
  | deviceId => ascii "DEVICE_ID"
  | apiKey => ascii "API_KEY"
  | logPath => ascii "LOG_PATH"
  | multicastIp => ascii "MULTICAST_IP"
  | multicastPort => ascii "MULTICAST_PORT"
  | localIp => ascii "LOCAL_IP"

/-- What is stored for a value. -/
def stored (value : List UInt8) : ConfigField → FieldValue
  | cloudIp => .inl (strncpy 64 value)
  | cloudPort => .inr (atoi value)
  | deviceId => .inl (strncpy 64 value)
  | apiKey => .inl (strncpy 256 value)
  | logPath => .inl (strncpy 256 value)
  | multicastIp => .inl (strncpy 32 value)
  | multicastPort => .inr (atoi value)
  | localIp => .inl (strncpy 32 value)

/-- The last value that some settings store in a field. -/
def lastValue (f : ConfigField) : List (List UInt8 × List UInt8) → Option FieldValue
  | [] => none
  | s :: settings => (lastValue f settings).or (if s.1 = f.key then some (f.stored s.2) else none)

end ConfigField

/-- The value of a field. -/
def Config.get (c : Config) : ConfigField → FieldValue
  | .cloudIp => .inl c.cloudIp
  | .cloudPort => .inr c.cloudPort
  | .deviceId => .inl c.deviceId
  | .apiKey => .inl c.apiKey
  | .logPath => .inl c.logPath
  | .multicastIp => .inl c.multicastIp
  | .multicastPort => .inr c.multicastPort
  | .localIp => .inl c.localIp

/-- The settings of the pieces of a line. -/
def pieceSettings (line : List UInt8) : List (List UInt8 × List UInt8) :=
  (fgetsLines 512 [] line).filterMap fun piece => setting (cstr piece)

/-! ## Fields -/

theorem Config.ext_get {c c' : Config} (h : ∀ f, c.get f = c'.get f) : c = c' := by
  have h₁ := Sum.inl.inj (h .cloudIp)
  have h₂ := Sum.inr.inj (h .cloudPort)
  have h₃ := Sum.inl.inj (h .deviceId)
  have h₄ := Sum.inl.inj (h .apiKey)
  have h₅ := Sum.inl.inj (h .logPath)
  have h₆ := Sum.inl.inj (h .multicastIp)
  have h₇ := Sum.inr.inj (h .multicastPort)
  have h₈ := Sum.inl.inj (h .localIp)
  cases c
  cases c'
  simp_all

theorem ConfigField.key_injective {f f' : ConfigField} (h : f.key = f'.key) : f = f' := by
  revert h
  cases f <;> cases f' <;> decide

/-- Setting a field sets that field only. -/
theorem Config.get_assign (c : Config) (key value : List UInt8) (f : ConfigField) :
    (c.assign key value).get f = if key = f.key then f.stored value else c.get f := by
  by_cases hkey : ∃ f' : ConfigField, key = f'.key
  · obtain ⟨f', rfl⟩ := hkey
    rcases eq_or_ne f' f with rfl | hne
    · rw [if_pos rfl]
      cases f' <;> rfl
    · rw [if_neg fun h => hne (ConfigField.key_injective h)]
      cases f' <;> cases f <;> first | rfl | exact absurd rfl hne
  · have hno : ∀ f' : ConfigField, key ≠ f'.key := fun f' h => hkey ⟨f', h⟩
    have hassign : c.assign key value = c := by
      rw [assign]
      exact (if_neg (hno .cloudIp)).trans <| (if_neg (hno .cloudPort)).trans <|
        (if_neg (hno .deviceId)).trans <| (if_neg (hno .apiKey)).trans <|
        (if_neg (hno .logPath)).trans <| (if_neg (hno .multicastIp)).trans <|
        (if_neg (hno .multicastPort)).trans <| if_neg (hno .localIp)
    rw [hassign, if_neg (hno f)]

/-- The last of the settings of a field counts. -/
theorem Config.get_assignAll (c : Config) (settings : List (List UInt8 × List UInt8))
    (f : ConfigField) : (c.assignAll settings).get f = (f.lastValue settings).getD (c.get f) := by
  induction settings generalizing c with
  | nil => rfl
  | cons s settings ih =>
      have hstep := ih (c.assign s.1 s.2)
      rw [get_assign] at hstep
      rw [assignAll, List.foldl_cons, ← assignAll, hstep, ConfigField.lastValue]
      cases f.lastValue settings with
      | some v => rfl
      | none =>
          by_cases hkey : s.1 = f.key
          · rw [if_pos hkey, if_pos hkey]
            rfl
          · rw [if_neg hkey, if_neg hkey]
            rfl

/-! ## A comment in a file -/

/-- A line begins behind this text. -/
def EndsLine (before : List UInt8) : Prop := before = [] ∨ ∃ text, before = text ++ [10]

/-- A line ends before this text. -/
def EndsHere (rest : List UInt8) : Prop := rest = [] ∨ ∃ text, rest = 10 :: text

/-- A line in a file sets what its pieces set. -/
theorem loadConfig_line {before line rest : List UInt8} (hbefore : EndsLine before)
    (hline : 10 ∉ line) (hrest : EndsHere rest) :
    loadConfig (before ++ (line ++ rest)) =
      ((loadConfig before).assignAll (pieceSettings line)).readLines (fgetsLines 512 [] rest) := by
  have hsplit : fgetsLines 512 [] (before ++ (line ++ rest)) =
      fgetsLines 512 [] before ++ fgetsLines 512 [] (line ++ rest) := by
    rcases hbefore with rfl | ⟨text, rfl⟩
    · rfl
    · rw [List.append_assoc, List.singleton_append, fgetsLines_newline]
  rw [loadConfig_eq, hsplit, Config.readLines_append, ← loadConfig_eq, pieceSettings,
    ← Config.readLines_eq]
  rcases hrest with rfl | ⟨text, rfl⟩
  · rw [List.append_nil, fgetsLines, if_pos rfl, Config.readLines_nil]
  · have hnewline : fgetsLines 512 [] (10 :: text) = [10] :: fgetsLines 512 [] text := by
      simp [fgetsLines]
    rw [Config.readLines_line _ hline, hnewline, Config.readLines_cons, ← List.nil_append [10],
      Config.readLine_append_newline, Config.readLine_nil]

/-- A file that sets every field. -/
def fullConfig : List UInt8 :=
  ascii "CLOUD_IP=1\nCLOUD_PORT=1\nDEVICE_ID=1\nAPI_KEY=1\nLOG_PATH=1\nMULTICAST_IP=1\n" ++
    ascii "MULTICAST_PORT=1\nLOCAL_IP=1\n"

theorem endsLine_fullConfig : EndsLine fullConfig :=
  .inr ⟨fullConfig.dropLast, by decide +kernel⟩

theorem get_fullConfig (f : ConfigField) :
    (loadConfig fullConfig).get f = f.stored (ascii "1") := by
  have hload : loadConfig fullConfig = ⟨ascii "1", 1, ascii "1", ascii "1", ascii "1", ascii "1",
      1, ascii "1"⟩ := by
    decide +kernel
  rw [hload]
  cases f <;> rfl

theorem get_fullConfig_ne (f : ConfigField) :
    (loadConfig fullConfig).get f ≠ Config.zeroed.get f := by
  rw [get_fullConfig]
  cases f <;> decide

/-- Values that are the same above two different ones. -/
theorem eq_of_getD_eq {α : Type*} {x y : Option α} {a b : α} (hne : a ≠ b)
    (ha : x.getD a = y.getD a) (hb : x.getD b = y.getD b) : x = y := by
  cases x with
  | none =>
      cases y with
      | none => rfl
      | some v => exact absurd (ha.trans hb.symm) hne
  | some u =>
      cases y with
      | none => exact absurd (ha.symm.trans hb) hne
      | some v => exact congrArg some ha

/-- Lines that can stand for each other in every file set the same fields to the same
values. -/
theorem forall_loadConfig_eq_iff {line line' : List UInt8} (hline : 10 ∉ line)
    (hline' : 10 ∉ line') :
    (∀ before rest, EndsLine before → EndsHere rest →
        loadConfig (before ++ (line ++ rest)) = loadConfig (before ++ (line' ++ rest))) ↔
      ∀ f : ConfigField, f.lastValue (pieceSettings line) = f.lastValue (pieceSettings line') := by
  constructor
  · intro h f
    have hget : ∀ before, EndsLine before →
        (f.lastValue (pieceSettings line)).getD ((loadConfig before).get f) =
          (f.lastValue (pieceSettings line')).getD ((loadConfig before).get f) := by
      intro before hbefore
      have heq := h before [] hbefore (.inl rfl)
      rw [loadConfig_line hbefore hline (.inl rfl), loadConfig_line hbefore hline' (.inl rfl),
        fgetsLines, if_pos rfl, Config.readLines_nil, Config.readLines_nil] at heq
      rw [← Config.get_assignAll, ← Config.get_assignAll, heq]
    exact eq_of_getD_eq (get_fullConfig_ne f) (hget _ endsLine_fullConfig) (hget [] (.inl rfl))
  · intro h before rest hbefore hrest
    have hassign : (loadConfig before).assignAll (pieceSettings line) =
        (loadConfig before).assignAll (pieceSettings line') :=
      Config.ext_get fun f => by rw [Config.get_assignAll, Config.get_assignAll, h f]
    rw [loadConfig_line hbefore hline hrest, loadConfig_line hbefore hline' hrest, hassign]

/-! ## Comments -/

/-- A line whose first byte that is not white space is `#`. -/
def comment (blanks text : List UInt8) : List UInt8 := blanks ++ 35 :: text

theorem newline_not_mem_comment {blanks text : List UInt8}
    (hblanks : ∀ b ∈ blanks, isSpace b = true ∧ b ≠ 10) (htext : 10 ∉ text) :
    10 ∉ comment blanks text := by
  intro hmem
  rcases List.mem_append.mp hmem with hmem | hmem
  · exact (hblanks 10 hmem).2 rfl
  · exact htext (List.mem_of_ne_of_mem (by decide) hmem)

/-- The first byte of a trimmed text. -/
theorem head?_trim {blanks text : List UInt8} (hblanks : ∀ b ∈ blanks, isSpace b = true) {b : UInt8}
    (hb : isSpace b = false) : (trim (blanks ++ b :: text)).head? = some b := by
  rw [trim, skipSpace_append hblanks, skipSpace_cons hb]
  have hshorter := List.rdropWhile_prefix isSpace (b :: text)
  cases htrim : (b :: text).rdropWhile isSpace with
  | nil =>
      have := List.rdropWhile_eq_nil_iff.mp htrim b (List.mem_cons_self ..)
      rw [hb] at this
      cases this
  | cons c rest =>
      rw [htrim, List.cons_prefix_cons] at hshorter
      rw [hshorter.1, List.head?_cons]

/-- A comment is not a setting. -/
theorem setting_comment {blanks : List UInt8} (hblanks : ∀ b ∈ blanks, isSpace b = true)
    (text : List UInt8) : setting (cstr (comment blanks text)) = none := by
  have hnonzero : ∀ b ∈ blanks, (b ≠ 0 : Bool) = true := by
    intro b hb
    refine decide_eq_true ?_
    rintro rfl
    exact absurd (hblanks 0 hb) (by decide)
  rw [comment, cstr, List.takeWhile_append_of_pos hnonzero, List.takeWhile_cons_of_pos (by decide),
    setting]
  exact if_pos (.inr (head?_trim hblanks (by decide)))

/-- A comment that fits into the buffer sets nothing. -/
theorem pieceSettings_comment {blanks text : List UInt8}
    (hblanks : ∀ b ∈ blanks, isSpace b = true ∧ b ≠ 10) (htext : 10 ∉ text)
    (hlen : (comment blanks text).length ≤ 511) : pieceSettings (comment blanks text) = [] := by
  have hpiece : fgetsLines 512 [] (comment blanks text) = [comment blanks text] := by
    rw [fgetsLines_of_short (newline_not_mem_comment hblanks htext) (by decide)
      (by rwa [List.length_nil, Nat.zero_add]), List.nil_append, if_neg (by simp [comment])]
  rw [pieceSettings, hpiece, List.filterMap_cons_none, List.filterMap_nil]
  exact setting_comment (fun b hb => (hblanks b hb).1) text

/-- The text of a comment can be replaced exactly when the pieces of both lines set the same
fields to the same values. -/
theorem comment_unaffected_iff {blanks text text' : List UInt8}
    (hblanks : ∀ b ∈ blanks, isSpace b = true ∧ b ≠ 10) (htext : 10 ∉ text) (htext' : 10 ∉ text') :
    (∀ before rest, EndsLine before → EndsHere rest →
        loadConfig (before ++ (comment blanks text ++ rest)) =
          loadConfig (before ++ (comment blanks text' ++ rest))) ↔
      ∀ f : ConfigField, f.lastValue (pieceSettings (comment blanks text)) =
        f.lastValue (pieceSettings (comment blanks text')) := by
  exact forall_loadConfig_eq_iff (newline_not_mem_comment hblanks htext)
    (newline_not_mem_comment hblanks htext')

theorem comment_unaffected_iff_short :
    (∀ b ∈ ascii " ", isSpace b = true ∧ b ≠ 10) ∧ 10 ∉ ascii "a" ∧ 10 ∉ ascii "b=1" ∧
    ∀ before rest, EndsLine before → EndsHere rest →
      loadConfig (before ++ (comment (ascii " ") (ascii "a") ++ rest)) =
        loadConfig (before ++ (comment (ascii " ") (ascii "b=1") ++ rest)) :=
  have hblanks : ∀ b ∈ ascii " ", isSpace b = true ∧ b ≠ 10 :=
    List.forall_mem_singleton.mpr (by decide)
  ⟨hblanks, by decide, by decide,
    (comment_unaffected_iff hblanks (by decide) (by decide)).mpr fun f => by
      rw [pieceSettings_comment hblanks (by decide) (by decide),
        pieceSettings_comment hblanks (by decide) (by decide)]⟩

/-- The piece behind the first 511 bytes of a comment sets the port. -/
theorem exists_long_comment :
    ∃ text : List UInt8, 10 ∉ text ∧ 0 ∉ text ∧
      (loadConfig (comment [] text)).cloudPort ≠ (loadConfig (comment [] [])).cloudPort :=
  ⟨List.replicate 510 120 ++ ascii "CLOUD_PORT=1", by decide +kernel⟩

theorem comment_sets_port :
    ¬ ∀ blanks text text' : List UInt8, (∀ b ∈ blanks, isSpace b = true ∧ b ≠ 10) → 10 ∉ text →
      10 ∉ text' → 0 ∉ text' → ∀ before rest, EndsLine before → EndsHere rest →
        loadConfig (before ++ (comment blanks text ++ rest)) =
          loadConfig (before ++ (comment blanks text' ++ rest)) := by
  intro h
  obtain ⟨text, h10, h0, hport⟩ := exists_long_comment
  have heq := h [] [] text (List.forall_mem_nil _) List.not_mem_nil h10 h0 [] [] (.inl rfl)
    (.inl rfl)
  rw [List.nil_append, List.nil_append, List.append_nil, List.append_nil] at heq
  rw [heq] at hport
  exact hport rfl

end IotEdge
