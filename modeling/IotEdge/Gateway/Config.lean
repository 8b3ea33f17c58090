import IotEdge.Lib.CString
import IotEdge.Lib.Literal

/-!
# The configuration

`load_config` reads a file line by line.  A line is trimmed and skipped when it is
empty or a comment, and otherwise split at its first `=`.  The key says which field
of `g_config` the value goes to.

The fields are arrays.  `strncpy` leaves the last byte of an array alone, and
`g_config` is zero at the start, so a field is always a string shorter than its
array.  Each line comes from `fgets`, and has a newline at its end only, which is
trimmed.  `Config.Fits` says both of the fields that go into an upload.
-/

namespace IotEdge

open CString
open Literal (readSign)

/-- `GatewayConfig`. -/
structure Config where
  /-- `char cloud_ip[64]`. -/
  cloudIp : List UInt8
  cloudPort : Int32
  /-- `char device_id[64]`. -/
  deviceId : List UInt8
  /-- `char api_key[256]`. -/
  apiKey : List UInt8
  /-- `char log_path[256]`. -/
  logPath : List UInt8
  /-- `char multicast_ip[32]`. -/
  multicastIp : List UInt8
  multicastPort : Int32
  /-- `char local_ip[32]`. -/
  localIp : List UInt8
deriving DecidableEq, Repr

/-! ## Library functions -/

/-- The lines that calls of `fgets` with a buffer of `size` bytes store.  `line` is
what the current call has stored so far. -/
def fgetsLines (size : Nat) : List UInt8 → List UInt8 → List (List UInt8)
  | line, [] => if line = [] then [] else [line]
  | line, b :: text =>
      if b = 10 ∨ (line ++ [b]).length = size - 1 then (line ++ [b]) :: fgetsLines size [] text
      else fgetsLines size (line ++ [b]) text

/-- The string in a buffer: the bytes before the first zero. -/
def cstr (buffer : List UInt8) : List UInt8 := buffer.takeWhile (· ≠ 0)

/-- `strncpy(field, value, sizeof(field) - 1)`. -/
def strncpy (size : Nat) (value : List UInt8) : List UInt8 := value.take (size - 1)

/-- `atoi`: `strtol`, which saturates, stored as an `int`. -/
def atoi (text : List UInt8) : Int32 :=
  let rest := (readSign (skipSpace text)).2
  let n := Decimal.value (rest.takeWhile Decimal.isDigit)
  if (readSign (skipSpace text)).1.isMinus then Int32.ofInt (max (-n) (-2 ^ 63))
  else Int32.ofInt (min n (2 ^ 63 - 1))

/-! ## The file -/

/-- `trim`. -/
def trim (str : List UInt8) : List UInt8 := (skipSpace str).rdropWhile isSpace

/-- `g_config` at program start. -/
def Config.zeroed : Config where
  cloudIp := []
  cloudPort := 0
  deviceId := []
  apiKey := []
  logPath := []
  multicastIp := []
  multicastPort := 0
  localIp := []

/-- The field of a key is set. -/
def Config.assign (c : Config) (key value : List UInt8) : Config :=
  if key = ascii "CLOUD_IP" then { c with cloudIp := strncpy 64 value }
  else if key = ascii "CLOUD_PORT" then { c with cloudPort := atoi value }
  else if key = ascii "DEVICE_ID" then { c with deviceId := strncpy 64 value }
  else if key = ascii "API_KEY" then { c with apiKey := strncpy 256 value }
  else if key = ascii "LOG_PATH" then { c with logPath := strncpy 256 value }
  else if key = ascii "MULTICAST_IP" then { c with multicastIp := strncpy 32 value }
  else if key = ascii "MULTICAST_PORT" then { c with multicastPort := atoi value }
  else if key = ascii "LOCAL_IP" then { c with localIp := strncpy 32 value }
  else c

/-- The body of the loop. -/
def Config.readLine (c : Config) (buffer : List UInt8) : Config :=
  let line := trim (cstr buffer)
  if line = [] ∨ line.head? = some 35 then c
  else if 61 ∉ line then c
  else c.assign (trim (line.takeWhile (· ≠ 61))) (trim (line.dropWhile (· ≠ 61)).tail)

/-- `load_config` on a file that can be opened. -/
def loadConfig (file : List UInt8) : Config :=
  (fgetsLines 512 [] file).foldl Config.readLine .zeroed

/-! ## What is stored -/

/-- The fields of an upload are strings that fit into their arrays, on one line. -/
structure Config.Fits (c : Config) : Prop where
  /-- `device_id` has room for the terminator. -/
  length_deviceId : c.deviceId.length < 64
  /-- It has no newline. -/
  deviceId_line : 10 ∉ c.deviceId
  /-- `api_key` has room for the terminator. -/
  length_apiKey : c.apiKey.length < 256

/-- A newline is at the end of a line. -/
theorem newline_of_mem_fgetsLines {size : Nat} {line text : List UInt8} (h : 10 ∉ line) :
    ∀ l ∈ fgetsLines size line text, 10 ∉ l.dropLast := by
  induction text generalizing line with
  | nil =>
      intro l hl
      rw [fgetsLines] at hl
      split at hl
      next => cases hl
      next =>
        rw [List.mem_singleton.mp hl]
        exact fun hmem => h (List.dropLast_subset _ hmem)
  | cons b text ih =>
      intro l hl
      rw [fgetsLines] at hl
      split at hl
      next =>
        rcases List.mem_cons.mp hl with rfl | hl
        · rwa [List.dropLast_concat]
        · exact ih (by simp) l hl
      next hmore =>
        have hb : b ≠ 10 := (not_or.mp hmore).1
        exact ih (by simp [h, hb.symm]) l hl

theorem trim_subset (str : List UInt8) : trim str ⊆ str :=
  fun _ hb => (List.dropWhile_suffix _).subset ((List.rdropWhile_prefix _ _).subset hb)

theorem dropLast_subset_of_prefix {l₁ l₂ : List UInt8} (h : l₁ <+: l₂) :
    l₁.dropLast ⊆ l₂.dropLast := by
  obtain ⟨t, rfl⟩ := h
  intro b hb
  rw [List.dropLast_append]
  split
  next => exact hb
  next => exact List.mem_append_left _ (List.dropLast_subset _ hb)

/-- A newline at the end is trimmed. -/
theorem newline_not_mem_trim {str : List UInt8} (h : 10 ∉ str.dropLast) : 10 ∉ trim str := by
  rcases List.eq_nil_or_concat str with rfl | ⟨init, b, rfl⟩
  · exact fun hmem => absurd (trim_subset _ hmem) (by simp)
  · rw [List.concat_eq_append, List.dropLast_concat] at h
    rw [List.concat_eq_append]
    rcases eq_or_ne b 10 with rfl | hb
    · intro hmem
      rw [trim, skipSpace, List.dropWhile_append] at hmem
      split at hmem
      next => exact absurd ((List.rdropWhile_prefix _ _).subset hmem) (by decide)
      next =>
        rw [List.rdropWhile_concat_pos _ _ _ (by decide)] at hmem
        exact h ((List.dropWhile_suffix _).subset ((List.rdropWhile_prefix _ _).subset hmem))
    · intro hmem
      have := trim_subset _ hmem
      simp [h, hb.symm] at this

/-- Setting a field keeps the fields in their arrays. -/
theorem Config.Fits.assign {c : Config} (h : c.Fits) (key : List UInt8) {value : List UInt8}
    (hvalue : 10 ∉ value) : (c.assign key value).Fits := by
  have hlen : ∀ size, 0 < size → (strncpy size value).length < size := by
    intro size hsize
    rw [strncpy, List.length_take]
    omega
  have hline : 10 ∉ strncpy 64 value := fun hmem => hvalue (List.take_subset _ _ hmem)
  rw [Config.assign]
  split_ifs
  · exact ⟨h.length_deviceId, h.deviceId_line, h.length_apiKey⟩
  · exact ⟨h.length_deviceId, h.deviceId_line, h.length_apiKey⟩
  · exact ⟨hlen 64 (by decide), hline, h.length_apiKey⟩
  · exact ⟨h.length_deviceId, h.deviceId_line, hlen 256 (by decide)⟩
  · exact ⟨h.length_deviceId, h.deviceId_line, h.length_apiKey⟩
  · exact ⟨h.length_deviceId, h.deviceId_line, h.length_apiKey⟩
  · exact ⟨h.length_deviceId, h.deviceId_line, h.length_apiKey⟩
  · exact ⟨h.length_deviceId, h.deviceId_line, h.length_apiKey⟩
  · exact h

/-- A line of the file keeps the fields in their arrays. -/
theorem Config.Fits.readLine {c : Config} (h : c.Fits) {buffer : List UInt8}
    (hbuffer : 10 ∉ buffer.dropLast) : (c.readLine buffer).Fits := by
  have hline : 10 ∉ trim (cstr buffer) := by
    refine newline_not_mem_trim fun hmem => hbuffer ?_
    exact dropLast_subset_of_prefix (List.takeWhile_prefix _) hmem
  simp only [Config.readLine]
  split
  next => exact h
  next =>
    split
    next => exact h
    next =>
      refine h.assign _ fun hmem => hline ?_
      exact (List.dropWhile_suffix _).subset (List.tail_subset _ (trim_subset _ hmem))

/-- The fields of any configuration that can be read. -/
theorem fits_loadConfig (file : List UInt8) : (loadConfig file).Fits := by
  have hlines : ∀ l ∈ fgetsLines 512 [] file, 10 ∉ l.dropLast :=
    newline_of_mem_fgetsLines (by simp)
  rw [loadConfig]
  generalize fgetsLines 512 [] file = lines at hlines
  have hstart : Config.zeroed.Fits := ⟨by decide, by decide, by decide⟩
  generalize Config.zeroed = c at hstart
  induction lines generalizing c with
  | nil => exact hstart
  | cons line lines ih =>
      exact ih (fun l hl => hlines l (List.mem_cons_of_mem _ hl)) _
        (hstart.readLine (hlines line (List.mem_cons_self ..)))

end IotEdge
