import IotEdge.Gateway.Base64Encode
import IotEdge.Gateway.Config

/-!
# The credentials of the cloud client

`cloud_client_thread` prints the key and a colon into `temp_buf`, which has 512 bytes, and
encodes them into `base64_id`, which has 256.  A key has up to 255 bytes, and four bytes
are written for three.
-/

namespace IotEdge

open CString

/-- `sizeof(base64_id)`. -/
def base64IdSize : Nat := 256

/-- The string that `sprintf(temp_buf, "%s:", g_config.api_key)` prints. -/
def Config.credentials (c : Config) : List UInt8 := c.apiKey ++ ascii ":"

/-! ## The key is a string -/

theorem zero_not_mem_apiKey_assign {c : Config} (h : 0 ∉ c.apiKey) (key : List UInt8)
    {value : List UInt8} (hvalue : 0 ∉ value) : 0 ∉ (c.assign key value).apiKey := by
  rw [Config.assign]
  split_ifs
  · exact h
  · exact h
  · exact h
  · exact fun hmem => hvalue (List.take_subset _ _ hmem)
  · exact h
  · exact h
  · exact h
  · exact h
  · exact h

theorem zero_not_mem_cstr (buffer : List UInt8) : 0 ∉ cstr buffer := fun hmem =>
  absurd (List.mem_takeWhile_imp hmem) (by decide)

theorem zero_not_mem_apiKey_readLine {c : Config} (h : 0 ∉ c.apiKey) (buffer : List UInt8) :
    0 ∉ (c.readLine buffer).apiKey := by
  have hline : 0 ∉ trim (cstr buffer) := fun hmem =>
    zero_not_mem_cstr buffer (trim_subset _ hmem)
  simp only [Config.readLine]
  split
  next => exact h
  next =>
    split
    next => exact h
    next =>
      refine zero_not_mem_apiKey_assign h _ fun hmem => hline ?_
      exact (List.dropWhile_suffix _).subset (List.tail_subset _ (trim_subset _ hmem))

/-- Whatever is in the file, the key ends before its first zero. -/
theorem zero_not_mem_apiKey (file : List UInt8) : 0 ∉ (loadConfig file).apiKey := by
  have hlines : ∀ (lines : List (List UInt8)) (c : Config), 0 ∉ c.apiKey →
      0 ∉ (lines.foldl Config.readLine c).apiKey := by
    intro lines
    induction lines with
    | nil => exact fun c h => h
    | cons line lines ih => exact fun c h => ih _ (zero_not_mem_apiKey_readLine h line)
  exact hlines _ _ (by decide)

/-! ## The buffer -/

theorem length_encode_credentials (c : Config) :
    (base64Encode c.credentials ++ [0]).length = 4 * ((c.apiKey.length + 3) / 3) + 1 := by
  rw [List.length_append, length_base64Encode, Config.credentials, List.length_append]
  rfl

/-- What `base64_encode` writes for the key of a file. -/
theorem encodesTo_credentials_iff (file : List UInt8) {e : List UInt8} :
    EncodesTo (loadConfig file).credentials e ↔ e = base64Encode (loadConfig file).credentials := by
  have hkey := (fits_loadConfig file).length_apiKey
  have hne : (loadConfig file).credentials ≠ [] :=
    List.append_ne_nil_of_right_ne_nil _ (by decide)
  have h0 : 0 ∉ (loadConfig file).credentials := by
    rw [Config.credentials, List.mem_append, not_or]
    exact ⟨zero_not_mem_apiKey file, by decide⟩
  have hlen : (loadConfig file).credentials.length ≤ 1610612733 := by
    have hcolon : (ascii ":").length = 1 := rfl
    rw [Config.credentials, List.length_append, hcolon]
    omega
  rw [encodesTo_iff hne h0, encodedPart_eq (hlen.trans (by decide)), and_iff_left hlen]

/-- The credentials fit into `base64_id` exactly for a key of up to 188 bytes. -/
theorem base64_id_fits_iff (file : List UInt8) :
    (∃ e, EncodesTo (loadConfig file).credentials e ∧ (e ++ [0]).length ≤ base64IdSize) ↔
      (loadConfig file).apiKey.length ≤ 188 := by
  constructor
  · rintro ⟨e, he, hsize⟩
    rw [(encodesTo_credentials_iff file).mp he, length_encode_credentials, base64IdSize] at hsize
    omega
  · intro hfits
    refine ⟨_, (encodesTo_credentials_iff file).mpr rfl, ?_⟩
    rw [length_encode_credentials, base64IdSize]
    omega

/-- A key of 189 bytes makes 257 bytes. -/
theorem base64_id_overrun :
    ¬ ∀ file : List UInt8, ∃ e, EncodesTo (loadConfig file).credentials e ∧
      (e ++ [0]).length ≤ base64IdSize := by
  intro h
  obtain ⟨e, he, hsize⟩ := h (ascii "API_KEY=" ++ List.replicate 189 97)
  have hkey : (loadConfig (ascii "API_KEY=" ++ List.replicate 189 97)).apiKey.length = 189 := by
    decide +kernel
  rw [(encodesTo_credentials_iff _).mp he, length_encode_credentials, hkey] at hsize
  exact absurd hsize (by decide)

end IotEdge
