import IotEdge.Gateway.ConfigLines

/-!
# The buffers of the configuration

`load_config` works in place.  `trim` writes zeros over the white space at the end of a
string and moves the rest to its beginning, with everything in one buffer: the line, and
then the key and the value on both sides of the `=` that is overwritten.  The fields are
arrays, which `strncpy` fills up with zeros.

A step that would leave the buffer has no result.  `loadConfig_grammar` says that there is
always one, and that it is what the grammar of the lines says.
-/

namespace IotEdge

open CString

/-- `GatewayConfig`, with its arrays. -/
structure GatewayConfig where
  cloudIp : Vector UInt8 64
  cloudPort : Int32
  deviceId : Vector UInt8 64
  apiKey : Vector UInt8 256
  logPath : Vector UInt8 256
  multicastIp : Vector UInt8 32
  multicastPort : Int32
  localIp : Vector UInt8 32

/-- `strncpy(field, value, sizeof(field) - 1)`. -/
def strncpyInto {n : Nat} (field : Vector UInt8 n) (value : List UInt8) : Vector UInt8 n :=
  .ofFn fun i => if i.val < n - 1 then value.getD i 0 else field[i]

/-- `g_config` at program start. -/
def GatewayConfig.zeroed : GatewayConfig where
  cloudIp := .replicate 64 0
  cloudPort := 0
  deviceId := .replicate 64 0
  apiKey := .replicate 256 0
  logPath := .replicate 256 0
  multicastIp := .replicate 32 0
  multicastPort := 0
  localIp := .replicate 32 0

/-- The field of a key is set. -/
def GatewayConfig.assign (g : GatewayConfig) (key value : List UInt8) : GatewayConfig :=
  if key = ascii "CLOUD_IP" then { g with cloudIp := strncpyInto g.cloudIp value }
  else if key = ascii "CLOUD_PORT" then { g with cloudPort := atoi value }
  else if key = ascii "DEVICE_ID" then { g with deviceId := strncpyInto g.deviceId value }
  else if key = ascii "API_KEY" then { g with apiKey := strncpyInto g.apiKey value }
  else if key = ascii "LOG_PATH" then { g with logPath := strncpyInto g.logPath value }
  else if key = ascii "MULTICAST_IP" then
    { g with multicastIp := strncpyInto g.multicastIp value }
  else if key = ascii "MULTICAST_PORT" then { g with multicastPort := atoi value }
  else if key = ascii "LOCAL_IP" then { g with localIp := strncpyInto g.localIp value }
  else g

/-! ## `trim` in a buffer -/

/-- The string at `p`, if it has a terminator. -/
def stringAt (buf : List UInt8) (p : Nat) : Option (List UInt8) :=
  if 0 ∈ buf.drop p then some (cstr (buf.drop p)) else none

/-- `while (*p1 && isspace((unsigned char)*p1)) p1++`. -/
def skipBlanks (buf : List UInt8) (p1 : Nat) : Option Nat :=
  if _h : p1 < buf.length then
    if buf[p1] ≠ 0 ∧ isSpace buf[p1] then skipBlanks buf (p1 + 1) else some p1
  else none
termination_by buf.length - p1

/-- `while (p2 > p1 && isspace((unsigned char)*p2)) *p2-- = '\0'`. -/
def cutBlanks (buf : List UInt8) (p1 : Nat) (p2 : Int) : Option (List UInt8 × Int) :=
  if (p1 : Int) < p2 then do
    let c ← buf[p2.toNat]?
    if isSpace c then cutBlanks (buf.set p2.toNat 0) p1 (p2 - 1) else some (buf, p2)
  else some (buf, p2)
termination_by (p2 - p1).toNat

/-- `memmove(buf + dst, buf + src, n)`. -/
def memmove (buf : List UInt8) (dst src : Nat) (n : Int) : Option (List UInt8) :=
  if 0 ≤ n ∧ src + n ≤ buf.length ∧ dst + n ≤ buf.length then
    some (buf.take dst ++ ((buf.drop src).take n.toNat ++ buf.drop (dst + n.toNat)))
  else none

/-- `trim(buf + str)`.  `p2` stands before the string when it is empty. -/
def trimAt (buf : List UInt8) (str : Nat) : Option (List UInt8) := do
  let s ← stringAt buf str
  let p1 ← skipBlanks buf str
  let (buf, p2) ← cutBlanks buf p1 (str + s.length - 1)
  memmove buf str p1 (p2 - p1 + 2)

/-! ## `load_config` -/

/-- What `fgets` stores. -/
def storeLine (buf line : List UInt8) : Option (List UInt8) :=
  if line.length < buf.length then some (line ++ 0 :: buf.drop (line.length + 1)) else none

/-- The body of the loop, behind `fgets`. -/
def GatewayConfig.readBuffer (g : GatewayConfig) (buf : List UInt8) :
    Option (List UInt8 × GatewayConfig) := do
  let buf ← trimAt buf 0
  let c ← buf[0]?
  if c = 0 ∨ c = 35 then return (buf, g)
  let line ← stringAt buf 0
  if 61 ∉ line then return (buf, g)
  let eqPos := line.idxOf 61
  let buf := buf.set eqPos 0
  let buf ← trimAt buf 0
  let buf ← trimAt buf (eqPos + 1)
  let key ← stringAt buf 0
  let value ← stringAt buf (eqPos + 1)
  return (buf, g.assign key value)

/-- The loop, over the lines that `fgets` stores. -/
def GatewayConfig.readBuffers (g : GatewayConfig) (buf : List UInt8) :
    List (List UInt8) → Option (List UInt8 × GatewayConfig)
  | [] => some (buf, g)
  | line :: lines => do
      let buf ← storeLine buf line
      let (buf, g) ← g.readBuffer buf
      g.readBuffers buf lines

/-- `load_config` on a file that can be opened, with anything in `line` at the start. -/
def loadConfigInto (line : Vector UInt8 512) (file : List UInt8) : Option GatewayConfig := do
  let (_, g) ← GatewayConfig.zeroed.readBuffers line.toList (fgetsLines 512 [] file)
  return g

/-! ## Strings in a buffer -/

theorem cstr_append {s : List UInt8} (h0 : 0 ∉ s) (rest : List UInt8) :
    cstr (s ++ 0 :: rest) = s := by
  have hs : ∀ b ∈ s, (b ≠ 0 : Bool) = true := fun b hb =>
    decide_eq_true (ne_of_mem_of_not_mem hb h0)
  rw [cstr, List.takeWhile_append_of_pos hs, List.takeWhile_cons_of_neg (by simp),
    List.append_nil]

theorem stringAt_append {s : List UInt8} (h0 : 0 ∉ s) (before after : List UInt8) :
    stringAt (before ++ (s ++ 0 :: after)) before.length = some s := by
  rw [stringAt, List.drop_left, if_pos (by simp), cstr_append h0]

/-- The white space at the beginning. -/
theorem skipBlanks_append {ws : List UInt8} (hws : ∀ b ∈ ws, isSpace b = true) {c : UInt8}
    (hc : c = 0 ∨ isSpace c = false) (before rest : List UInt8) :
    skipBlanks (before ++ (ws ++ c :: rest)) before.length = some (before.length + ws.length) := by
  induction ws generalizing before with
  | nil =>
      rw [skipBlanks, dif_pos (by simp)]
      have hstop : ¬ (c ≠ 0 ∧ isSpace c = true) := by
        rintro ⟨hne, hspace⟩
        rcases hc with rfl | hno
        · exact hne rfl
        · rw [hspace] at hno
          cases hno
      simp [hstop]
  | cons b ws ih =>
      obtain ⟨hb, hws⟩ := List.forall_mem_cons.mp hws
      have hne : b ≠ 0 := by
        rintro rfl
        exact absurd hb (by decide)
      have h := ih hws (before ++ [b])
      rw [List.append_assoc, List.length_append, List.length_singleton, List.singleton_append] at h
      rw [skipBlanks, dif_pos (by simp)]
      simp only [List.cons_append] at h ⊢
      rw [List.getElem_append_right (by omega)]
      simp only [Nat.sub_self, List.getElem_cons_zero, hne, hb, ne_eq, not_false_eq_true,
        and_self, if_true, h, List.length_cons]
      congr 1
      omega

/-- The white space at the end. -/
theorem cutBlanks_append {ws : List UInt8} (hws : ∀ b ∈ ws, isSpace b = true) {c : UInt8}
    (hc : isSpace c = false) (before rest : List UInt8) {p1 : Nat} (hp1 : p1 ≤ before.length) :
    cutBlanks (before ++ c :: (ws ++ rest)) p1 ((before.length + ws.length : Nat) : Int) =
      some (before ++ c :: (List.replicate ws.length 0 ++ rest), (before.length : Int)) := by
  induction ws using List.reverseRecOn generalizing rest with
  | nil =>
      rw [cutBlanks]
      simp [hc]
  | append_singleton ws b ih =>
      have hb : isSpace b = true := hws b (by simp)
      have hlt : (p1 : Int) < ((before.length + (ws ++ [b]).length : Nat) : Int) := by
        rw [List.length_append, List.length_singleton]
        omega
      have h := ih (fun b hb => hws b (List.mem_append_left _ hb)) (0 :: rest)
      have hbuf : before ++ c :: (ws ++ [b] ++ rest) = (before ++ c :: ws) ++ b :: rest := by simp
      have hset : (before ++ c :: ws) ++ 0 :: rest = before ++ c :: (ws ++ 0 :: rest) := by simp
      have hp2 : ((before.length + (ws ++ [b]).length : Nat) : Int).toNat =
          (before ++ c :: ws).length := by
        simp only [List.length_append, List.length_cons, List.length_nil]
        omega
      have hprev : ((before.length + (ws ++ [b]).length : Nat) : Int) - 1 =
          ((before.length + ws.length : Nat) : Int) := by
        rw [List.length_append, List.length_singleton]
        omega
      rw [cutBlanks, if_pos hlt, hp2, hbuf, List.getElem?_append_right le_rfl, Nat.sub_self,
        List.getElem?_cons_zero, Option.bind_eq_bind, Option.bind_some, if_pos hb,
        List.set_append_right _ _ le_rfl, Nat.sub_self, List.set_cons_zero, hset, hprev, h,
        List.length_append, List.length_singleton, List.replicate_succ']
      simp

/-- What is moved to the beginning, up to its terminator. -/
theorem memmove_append (before skipped s rest after : List UInt8) :
    ∃ junk, junk.length = skipped.length + rest.length ∧
      memmove (before ++ (skipped ++ (s ++ 0 :: (rest ++ after)))) before.length
          (before.length + skipped.length) (s.length + 1 : Nat) =
        some (before ++ (s ++ 0 :: (junk ++ after))) := by
  refine ⟨(skipped ++ (s ++ 0 :: rest)).drop (s.length + 1), ?_, ?_⟩
  · simp only [List.length_drop, List.length_append, List.length_cons]
    omega
  · have hmoved : ((before ++ (skipped ++ (s ++ 0 :: (rest ++ after)))).drop
        (before.length + skipped.length)).take (s.length + 1) = s ++ [0] := by
      rw [← List.append_assoc, ← List.length_append, List.drop_left]
      simp [List.take_append]
    have hkept : (before ++ (skipped ++ (s ++ 0 :: (rest ++ after)))).drop
        (before.length + (s.length + 1)) =
          (skipped ++ (s ++ 0 :: rest)).drop (s.length + 1) ++ after := by
      have hassoc : skipped ++ (s ++ 0 :: (rest ++ after)) =
          (skipped ++ (s ++ 0 :: rest)) ++ after := by simp
      rw [List.drop_length_add_append, hassoc, List.drop_append_of_le_length]
      simp only [List.length_append, List.length_cons]
      omega
    rw [memmove, if_pos, Int.toNat_natCast, List.take_left, hmoved, hkept]
    · simp
    · simp only [List.length_append, List.length_cons]
      omega

/-- A text that is not blank, between white space. -/
theorem exists_trim {s : List UInt8} (h : skipSpace s ≠ []) :
    ∃ ws₁ u d ws₂, (∀ b ∈ ws₁, isSpace b = true) ∧ (∀ b ∈ ws₂, isSpace b = true) ∧
      isSpace d = false ∧ trim s = u ++ [d] ∧ s = ws₁ ++ (u ++ d :: ws₂) ∧
      ∃ c rest, isSpace c = false ∧ u ++ d :: ws₂ = c :: rest := by
  obtain ⟨ws₁, hws₁, hs⟩ := exists_skipSpace s
  have hfirst : isSpace ((skipSpace s).head h) = false := List.head_dropWhile_not isSpace h
  have hne : trim s ≠ [] := by
    intro hnil
    have hall := List.rdropWhile_eq_nil_iff.mp hnil _ (List.head_mem h)
    rw [hfirst] at hall
    cases hall
  have hlast : isSpace ((trim s).getLast hne) = false :=
    Bool.eq_false_iff.mpr (List.rdropWhile_last_not isSpace (skipSpace s) hne)
  have hskip : (trim s).dropLast ++ (trim s).getLast hne :: (skipSpace s).rtakeWhile isSpace =
      skipSpace s := by
    rw [List.append_cons, List.dropLast_concat_getLast, trim, List.rdropWhile_append_rtakeWhile]
  refine ⟨ws₁, (trim s).dropLast, (trim s).getLast hne, (skipSpace s).rtakeWhile isSpace, hws₁,
    fun b hb => List.mem_rtakeWhile_imp hb, hlast, (List.dropLast_concat_getLast hne).symm, ?_, ?_⟩
  · rw [hskip]
    exact hs
  · rw [hskip]
    exact ⟨_, _, hfirst, (List.cons_head_tail h).symm⟩

/-- `p1` comes to the terminator, and `p2` is before it. -/
theorem trimAt_blank {s : List UInt8} (h0 : 0 ∉ s) (hspace : ∀ b ∈ s, isSpace b = true)
    (before after : List UInt8) :
    ∃ junk, junk.length = s.length ∧ trimAt (before ++ (s ++ 0 :: after)) before.length =
      some (before ++ 0 :: (junk ++ after)) := by
  obtain ⟨junk, hlen, hmove⟩ := memmove_append before s [] [] after
  have hstop : ¬ (((before.length + s.length : Nat) : Int) < before.length + s.length - 1) := by
    omega
  have hcount : (before.length + s.length - 1 : Int) - ((before.length + s.length : Nat) : Int) + 2 =
      ((([] : List UInt8).length + 1 : Nat) : Int) := by
    rw [List.length_nil]
    omega
  refine ⟨junk, hlen, ?_⟩
  rw [trimAt, stringAt_append h0, Option.bind_eq_bind, Option.bind_some,
    skipBlanks_append hspace (.inl rfl), Option.bind_eq_bind, Option.bind_some, cutBlanks,
    if_neg hstop, Option.bind_eq_bind, Option.bind_some]
  dsimp only
  rw [hcount]
  exact hmove

/-- `p1` comes to the first byte of the text. -/
theorem skipBlanks_text {ws₁ text rest : List UInt8} (hws₁ : ∀ b ∈ ws₁, isSpace b = true)
    {c : UInt8} (hc : isSpace c = false) (hfirst : text = c :: rest) (before after : List UInt8) :
    skipBlanks (before ++ (ws₁ ++ text ++ 0 :: after)) before.length =
      some (before.length + ws₁.length) := by
  rw [hfirst, List.append_assoc, List.cons_append]
  exact skipBlanks_append hws₁ (.inr hc) before _

/-- `p2` comes to the last byte of the text, and the text is cut behind it. -/
theorem cutBlanks_text {ws₂ : List UInt8} (hws₂ : ∀ b ∈ ws₂, isSpace b = true) {d : UInt8}
    (hd : isSpace d = false) (before ws₁ u after : List UInt8) :
    cutBlanks (before ++ (ws₁ ++ (u ++ d :: ws₂) ++ 0 :: after)) (before.length + ws₁.length)
        (before.length + (ws₁ ++ (u ++ d :: ws₂)).length - 1 : Int) =
      some (before ++ (ws₁ ++ ((u ++ [d]) ++ 0 :: (List.replicate ws₂.length 0 ++ after))),
        ((before ++ ws₁ ++ u).length : Int)) := by
  have hbuf : before ++ (ws₁ ++ (u ++ d :: ws₂) ++ 0 :: after) =
      (before ++ ws₁ ++ u) ++ d :: (ws₂ ++ 0 :: after) := by simp
  have hp1 : before.length + ws₁.length ≤ (before ++ ws₁ ++ u).length := by simp
  have hp2 : (before.length + (ws₁ ++ (u ++ d :: ws₂)).length - 1 : Int) =
      (((before ++ ws₁ ++ u).length + ws₂.length : Nat) : Int) := by
    simp only [List.length_append, List.length_cons]
    omega
  have hzeros : (before ++ ws₁ ++ u) ++ d :: (List.replicate ws₂.length 0 ++ 0 :: after) =
      before ++ (ws₁ ++ ((u ++ [d]) ++ 0 :: (List.replicate ws₂.length 0 ++ after))) := by
    rw [List.append_cons (List.replicate ws₂.length 0), ← List.replicate_succ',
      List.replicate_succ]
    simp
  rw [hp2, hbuf, cutBlanks_append hws₂ hd _ _ hp1, hzeros]

/-- What is between `p1` and `p2` is moved to the beginning. -/
theorem trimAt_text {s : List UInt8} (h0 : 0 ∉ s) (htext : skipSpace s ≠ [])
    (before after : List UInt8) :
    ∃ junk, (trim s).length + junk.length = s.length ∧
      trimAt (before ++ (s ++ 0 :: after)) before.length =
        some (before ++ (trim s ++ 0 :: (junk ++ after))) := by
  obtain ⟨ws₁, u, d, ws₂, hws₁, hws₂, hd, htrim, rfl, c, rest, hc, hfirst⟩ := exists_trim htext
  obtain ⟨junk, hlen, hmove⟩ :=
    memmove_append before ws₁ (u ++ [d]) (List.replicate ws₂.length 0) after
  refine ⟨junk, ?_, ?_⟩
  · simp only [htrim, hlen, List.length_append, List.length_cons, List.length_nil,
      List.length_replicate]
    omega
  · have hcount : ((before ++ ws₁ ++ u).length : Int) -
        ((before.length + ws₁.length : Nat) : Int) + 2 = ((u ++ [d]).length + 1 : Nat) := by
      simp only [List.length_append, List.length_singleton]
      omega
    rw [trimAt, stringAt_append h0, Option.bind_eq_bind, Option.bind_some,
      skipBlanks_text hws₁ hc hfirst, Option.bind_eq_bind, Option.bind_some,
      cutBlanks_text hws₂ hd, Option.bind_eq_bind, Option.bind_some, htrim]
    dsimp only
    rw [hcount]
    exact hmove

/-- `trim` in a buffer leaves what is behind the terminator alone. -/
theorem trimAt_append {s : List UInt8} (h0 : 0 ∉ s) (before after : List UInt8) :
    ∃ junk, (trim s).length + junk.length = s.length ∧
      trimAt (before ++ (s ++ 0 :: after)) before.length =
        some (before ++ (trim s ++ 0 :: (junk ++ after))) := by
  by_cases hblank : skipSpace s = []
  · have htrim : trim s = [] := by rw [trim, hblank]; rfl
    obtain ⟨junk, hlen, h⟩ := trimAt_blank h0 (List.dropWhile_eq_nil_iff.mp hblank) before after
    refine ⟨junk, ?_, ?_⟩
    · rw [htrim, hlen, List.length_nil, Nat.zero_add]
    · rw [h, htrim, List.nil_append]
  · exact trimAt_text h0 hblank before after

/-! ## Strings in the fields -/

/-- The array holds the string, and zeros behind it. -/
structure Holds {n : Nat} (field : Vector UInt8 n) (s : List UInt8) : Prop where
  bytes : ∀ i (h : i < n), field[i] = s.getD i 0
  /-- There is room for the terminator. -/
  length_lt : s.length < n
  zero_not_mem : 0 ∉ s

theorem holds_replicate {n : Nat} (hn : 0 < n) : Holds (.replicate n 0) [] :=
  ⟨by simp, hn, by simp⟩

/-- `strncpy` leaves the last byte of a field alone, which is zero. -/
theorem Holds.strncpyInto {n : Nat} {field : Vector UInt8 n} {s value : List UInt8}
    (h : Holds field s) (h0 : 0 ∉ value) : Holds (strncpyInto field value) (strncpy n value) := by
  have hlt := h.length_lt
  refine ⟨fun i hi => ?_, ?_, fun hmem => h0 (List.take_subset _ _ hmem)⟩
  · simp only [IotEdge.strncpyInto, strncpy, Vector.getElem_ofFn, List.getD_eq_getElem?_getD,
      List.getElem?_take]
    split
    next => rfl
    next hlast =>
      have hzero : s[i]? = none := List.getElem?_eq_none (by omega)
      rw [Fin.getElem_fin, h.bytes i hi, List.getD_eq_getElem?_getD, hzero]
  · rw [strncpy, List.length_take]
    omega

/-- The fields of `g_config` hold the fields of a configuration. -/
structure GatewayConfig.Holds (g : GatewayConfig) (c : Config) : Prop where
  cloudIp : IotEdge.Holds g.cloudIp c.cloudIp
  cloudPort : g.cloudPort = c.cloudPort
  deviceId : IotEdge.Holds g.deviceId c.deviceId
  apiKey : IotEdge.Holds g.apiKey c.apiKey
  logPath : IotEdge.Holds g.logPath c.logPath
  multicastIp : IotEdge.Holds g.multicastIp c.multicastIp
  multicastPort : g.multicastPort = c.multicastPort
  localIp : IotEdge.Holds g.localIp c.localIp

theorem GatewayConfig.holds_zeroed : GatewayConfig.zeroed.Holds .zeroed where
  cloudIp := holds_replicate (by decide)
  cloudPort := rfl
  deviceId := holds_replicate (by decide)
  apiKey := holds_replicate (by decide)
  logPath := holds_replicate (by decide)
  multicastIp := holds_replicate (by decide)
  multicastPort := rfl
  localIp := holds_replicate (by decide)

theorem GatewayConfig.Holds.assign {g : GatewayConfig} {c : Config} (h : g.Holds c)
    (key : List UInt8) {value : List UInt8} (h0 : 0 ∉ value) :
    (g.assign key value).Holds (c.assign key value) := by
  rw [GatewayConfig.assign, Config.assign]
  split_ifs
  · exact ⟨h.cloudIp.strncpyInto h0, h.cloudPort, h.deviceId, h.apiKey, h.logPath, h.multicastIp,
      h.multicastPort, h.localIp⟩
  · exact ⟨h.cloudIp, rfl, h.deviceId, h.apiKey, h.logPath, h.multicastIp, h.multicastPort,
      h.localIp⟩
  · exact ⟨h.cloudIp, h.cloudPort, h.deviceId.strncpyInto h0, h.apiKey, h.logPath, h.multicastIp,
      h.multicastPort, h.localIp⟩
  · exact ⟨h.cloudIp, h.cloudPort, h.deviceId, h.apiKey.strncpyInto h0, h.logPath, h.multicastIp,
      h.multicastPort, h.localIp⟩
  · exact ⟨h.cloudIp, h.cloudPort, h.deviceId, h.apiKey, h.logPath.strncpyInto h0, h.multicastIp,
      h.multicastPort, h.localIp⟩
  · exact ⟨h.cloudIp, h.cloudPort, h.deviceId, h.apiKey, h.logPath, h.multicastIp.strncpyInto h0,
      h.multicastPort, h.localIp⟩
  · exact ⟨h.cloudIp, h.cloudPort, h.deviceId, h.apiKey, h.logPath, h.multicastIp, rfl, h.localIp⟩
  · exact ⟨h.cloudIp, h.cloudPort, h.deviceId, h.apiKey, h.logPath, h.multicastIp,
      h.multicastPort, h.localIp.strncpyInto h0⟩
  · exact h

/-! ## The loop -/

/-- The buffer is cut at the first `=`, and the key and the value are trimmed. -/
theorem trimAt_split {key value : List UInt8} (hkey : 0 ∉ key) (hvalue : 0 ∉ value)
    (after : List UInt8) :
    ∃ buf₁ buf₂, trimAt (key ++ 0 :: (value ++ 0 :: after)) 0 = some buf₁ ∧
      trimAt buf₁ (key.length + 1) = some buf₂ ∧
      buf₂.length = (key ++ 0 :: (value ++ 0 :: after)).length ∧
      stringAt buf₂ 0 = some (trim key) ∧ stringAt buf₂ (key.length + 1) = some (trim value) := by
  obtain ⟨junk₁, hlen₁, h₁⟩ := trimAt_append hkey [] (value ++ 0 :: after)
  have hbefore : (trim key ++ 0 :: junk₁).length = key.length + 1 := by
    rw [List.length_append, List.length_cons]
    omega
  obtain ⟨junk₂, hlen₂, h₂⟩ := trimAt_append hvalue (trim key ++ 0 :: junk₁) after
  have htrim : 0 ∉ trim key := fun hmem => hkey (trim_subset _ hmem)
  have htrim' : 0 ∉ trim value := fun hmem => hvalue (trim_subset _ hmem)
  have hassoc : ∀ rest, trim key ++ 0 :: (junk₁ ++ rest) = (trim key ++ 0 :: junk₁) ++ rest := by
    simp
  rw [hbefore] at h₂
  rw [List.nil_append, List.nil_append, List.length_nil, hassoc] at h₁
  refine ⟨_, _, h₁, h₂, ?_, ?_, ?_⟩
  · simp only [List.length_append, List.length_cons]
    omega
  · rw [← hassoc]
    exact stringAt_append htrim [] _
  · rw [← hbefore]
    exact stringAt_append htrim' _ _

/-- The key and the value on both sides of the first `=`. -/
theorem exists_split {text : List UInt8} (h : 61 ∈ text) :
    ∃ key value, text = key ++ 61 :: value ∧ text.idxOf 61 = key.length ∧
      text.takeWhile (· ≠ 61) = key ∧ (text.dropWhile (· ≠ 61)).tail = value := by
  obtain ⟨key, value, rfl, hkey⟩ := List.eq_append_cons_of_mem h
  have hall : ∀ b ∈ key, (b ≠ 61 : Bool) = true := fun b hb =>
    decide_eq_true (ne_of_mem_of_not_mem hb hkey)
  refine ⟨key, value, rfl, ?_, ?_, ?_⟩
  · rw [List.idxOf_append_of_notMem hkey, List.idxOf_cons_self, Nat.add_zero]
  · rw [List.takeWhile_append_of_pos hall, List.takeWhile_cons_of_neg (by simp), List.append_nil]
  · rw [List.dropWhile_append_of_pos hall, List.dropWhile_cons_of_neg (by simp), List.tail_cons]

/-- The first byte says whether the line is empty or a comment. -/
theorem exists_first {text : List UInt8} (h0 : 0 ∉ text) (after : List UInt8) :
    ∃ b, (text ++ 0 :: after)[0]? = some b ∧
      ((b = 0 ∨ b = 35) ↔ (text = [] ∨ text.head? = some 35)) := by
  cases text with
  | nil => exact ⟨0, rfl, by simp⟩
  | cons b text =>
      have hb : b ≠ 0 := fun hzero => h0 (hzero ▸ List.mem_cons_self ..)
      exact ⟨b, rfl, by simp [hb]⟩

/-- One line, stored in the buffer. -/
theorem GatewayConfig.Holds.readBuffer {g : GatewayConfig} {c : Config} (h : g.Holds c)
    {line : List UInt8} (h0 : 0 ∉ line) (after : List UInt8) :
    ∃ buf g', g.readBuffer (line ++ 0 :: after) = some (buf, g') ∧
      buf.length = (line ++ 0 :: after).length ∧ g'.Holds (c.readLine line) := by
  obtain ⟨junk, hlen, htrim⟩ := trimAt_append h0 [] after
  obtain ⟨text, htext⟩ : ∃ text, trim line = text := ⟨_, rfl⟩
  have htext0 : 0 ∉ text := fun hmem => h0 (trim_subset _ (htext ▸ hmem))
  have hcstr : cstr line = line := cstr_of_not_mem h0
  rw [htext] at hlen
  rw [List.nil_append, List.nil_append, List.length_nil, htext] at htrim
  have hlength : (text ++ 0 :: (junk ++ after)).length = (line ++ 0 :: after).length := by
    simp only [List.length_append, List.length_cons]
    omega
  obtain ⟨b, hb, hfirst⟩ := exists_first htext0 (junk ++ after)
  have hstring : stringAt (text ++ 0 :: (junk ++ after)) 0 = some text :=
    stringAt_append htext0 [] _
  rw [GatewayConfig.readBuffer, htrim]
  simp only [Option.bind_eq_bind, Option.bind_some, hb, Config.readLine, hcstr, htext, hfirst]
  by_cases hskip : text = [] ∨ text.head? = some 35
  · rw [if_pos hskip, if_pos hskip]
    exact ⟨_, g, rfl, hlength, h⟩
  · rw [if_neg hskip, if_neg hskip, hstring, Option.bind_some]
    by_cases hno : 61 ∉ text
    · rw [if_pos hno, if_pos hno]
      exact ⟨_, g, rfl, hlength, h⟩
    · obtain ⟨key, value, rfl, hidx, hkey, hvalue⟩ := exists_split (not_not.mp hno)
      have hkey0 : 0 ∉ key := fun hmem => htext0 (List.mem_append_left _ hmem)
      have hvalue0 : 0 ∉ value := fun hmem =>
        htext0 (List.mem_append_right _ (List.mem_cons_of_mem _ hmem))
      obtain ⟨buf₁, buf₂, h₁, h₂, hlen₂, hk, hv⟩ := trimAt_split hkey0 hvalue0 (junk ++ after)
      have hset : (key ++ 61 :: value ++ 0 :: (junk ++ after)).set key.length 0 =
          key ++ 0 :: (value ++ 0 :: (junk ++ after)) := by
        rw [List.append_assoc, List.set_append_right _ _ le_rfl, Nat.sub_self]
        rfl
      rw [if_neg hno, if_neg hno, hidx, hset, h₁, Option.bind_some, h₂, Option.bind_some, hk,
        Option.bind_some, hv, Option.bind_some, hkey, hvalue]
      refine ⟨buf₂, _, rfl, ?_, h.assign _ fun hmem => hvalue0 (trim_subset _ hmem)⟩
      rw [hlen₂, ← hlength]
      simp

/-! ## The file -/

/-- A stored line leaves room for the terminator. -/
theorem length_lt_of_mem_fgetsLines {size : Nat} {stored text : List UInt8}
    (h : stored.length + 1 < size) : ∀ l ∈ fgetsLines size stored text, l.length < size := by
  induction text generalizing stored with
  | nil =>
      intro l hl
      rw [fgetsLines] at hl
      split at hl
      next => cases hl
      next =>
        rw [List.mem_singleton.mp hl]
        omega
  | cons b text ih =>
      intro l hl
      have hlen : (stored ++ [b]).length = stored.length + 1 := by simp
      rw [fgetsLines] at hl
      split at hl
      next =>
        rcases List.mem_cons.mp hl with rfl | hl
        · omega
        · exact ih (by rw [List.length_nil]; omega) l hl
      next hmore =>
        have := (not_or.mp hmore).2
        exact ih (by omega) l hl

/-- The stored lines are of the bytes of the file. -/
theorem mem_of_mem_fgetsLines {size : Nat} {stored text l : List UInt8} {b : UInt8}
    (hl : l ∈ fgetsLines size stored text) (hb : b ∈ l) : b ∈ stored ++ text := by
  induction text generalizing stored with
  | nil =>
      rw [fgetsLines] at hl
      split at hl
      next => cases hl
      next =>
        rw [List.mem_singleton.mp hl] at hb
        rwa [List.append_nil]
  | cons a text ih =>
      rw [fgetsLines] at hl
      split at hl
      next =>
        rcases List.mem_cons.mp hl with rfl | hl
        · rw [List.append_cons]
          exact List.mem_append_left _ hb
        · rw [List.append_cons]
          exact List.mem_append_right _ (ih hl)
      next =>
        rw [List.append_cons]
        exact ih hl

/-- The lines, one after the other through one buffer. -/
theorem GatewayConfig.Holds.readBuffers {g : GatewayConfig} {c : Config} (h : g.Holds c)
    {lines : List (List UInt8)} (h0 : ∀ l ∈ lines, 0 ∉ l) {buf : List UInt8}
    (hlen : ∀ l ∈ lines, l.length < buf.length) :
    ∃ buf' g', g.readBuffers buf lines = some (buf', g') ∧ g'.Holds (c.readLines lines) := by
  induction lines generalizing g c buf with
  | nil => exact ⟨buf, g, rfl, h⟩
  | cons line lines ih =>
      obtain ⟨h0, h0s⟩ := List.forall_mem_cons.mp h0
      obtain ⟨hlen, hlens⟩ := List.forall_mem_cons.mp hlen
      obtain ⟨buf', g', hread, hlength, hg'⟩ := h.readBuffer h0 (buf.drop (line.length + 1))
      have hsame : buf'.length = buf.length := by
        rw [hlength, List.length_append, List.length_cons, List.length_drop]
        omega
      obtain ⟨buf'', g'', hrest, hg''⟩ := ih hg' h0s fun l hl => by
        rw [hsame]
        exact hlens l hl
      refine ⟨buf'', g'', ?_, hg''⟩
      rw [GatewayConfig.readBuffers, storeLine, if_pos hlen]
      simp only [Option.bind_eq_bind, Option.bind_some, hread, hrest]

/-- `load_config` fills the fields with what the lines of the file say, and whatever was in
the buffer makes no difference. -/
theorem loadConfigInto_holds (line : Vector UInt8 512) {file : List UInt8} (h0 : 0 ∉ file) :
    ∃ g, loadConfigInto line file = some g ∧ g.Holds (loadConfig file) := by
  have hline : ∀ l ∈ fgetsLines 512 [] file, l.length < line.toList.length := by
    rw [Vector.length_toList]
    exact length_lt_of_mem_fgetsLines (by decide)
  have hzero : ∀ l ∈ fgetsLines 512 [] file, 0 ∉ l := fun l hl hmem =>
    h0 (by simpa using mem_of_mem_fgetsLines hl hmem)
  obtain ⟨buf, g, hread, hg⟩ := GatewayConfig.holds_zeroed.readBuffers hzero hline
  refine ⟨g, ?_, hg⟩
  rw [loadConfigInto, hread]
  rfl

/-- `load_config` follows the grammar of the lines. -/
theorem loadConfig_grammar (line : Vector UInt8 512) {file : List UInt8} (h0 : 0 ∉ file)
    (hlines : ∀ l ∈ file.splitOn 10, l.length ≤ 510) :
    ∃ g, loadConfigInto line file = some g ∧ g.Holds (.ofText file) := by
  obtain ⟨g, hload, hg⟩ := loadConfigInto_holds line h0
  refine ⟨g, hload, ?_⟩
  rwa [loadConfig_eq_ofText h0 fun l hl => Nat.le_succ_of_le (hlines l hl)] at hg

theorem loadConfig_grammar_port :
    0 ∉ ascii "# cloud\nCLOUD_PORT = 80\n" ∧
    (∀ l ∈ (ascii "# cloud\nCLOUD_PORT = 80\n").splitOn 10, l.length ≤ 510) ∧
      ∃ g, loadConfigInto (.replicate 512 0) (ascii "# cloud\nCLOUD_PORT = 80\n") = some g ∧
        g.Holds (.ofText (ascii "# cloud\nCLOUD_PORT = 80\n")) :=
  ⟨by decide, by decide, loadConfig_grammar _ (by decide) (by decide)⟩

end IotEdge
