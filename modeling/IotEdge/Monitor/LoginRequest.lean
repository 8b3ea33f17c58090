import Mathlib
import IotEdge.Monitor.LoginReply

/-!
# The credentials of a request

The login window sends the account name and a hash of the password.  Both are first turned into
Latin-1, where every other character becomes a question mark, and the name is cut to the length
of its field.

So two users are told apart just when that much of their names differs, or the Latin-1 texts of
their passwords (`credentials_iff`).
-/

namespace IotEdge.LoginRequest

open LoginReply

/-! ## The source -/

/-- `REQ_LOGIN`. -/
def reqLogin : UInt8 := 5

/-- `REQ_REGISTER`. -/
def reqRegister : UInt8 := 6

/-- `register_st`. -/
structure RegisterSt where
  count : Vector UInt8 cntSize
  passwd : Vector UInt8 pwdSize
  registerState : UInt8

/-- `QString::toLatin1`, from UTF-16. -/
def toLatin1 (text : List UInt16) : List UInt8 :=
  text.map fun c => if c ≤ 0xFF then c.toUInt8 else 63

/-- The bytes of a text before the first zero. -/
def beforeZero (text : List UInt8) : List UInt8 := text.takeWhile (· ≠ 0)

/-- `strncpy` into a field of `size` bytes.  It writes all of them, with zeros behind the text. -/
def strncpy (size : Nat) (text : List UInt8) : Vector UInt8 size :=
  Vector.ofFn fun i => (beforeZero text).getD i 0

def hexDigit (n : Nat) : UInt8 := if n < 10 then .ofNat (48 + n) else .ofNat (87 + n)

/-- `QByteArray::toHex`. -/
def toHex (bytes : List UInt8) : List UInt8 :=
  bytes.flatMap fun b => [hexDigit (b.toNat / 16), hexDigit (b.toNat % 16)]

section requests

variable (sha512 : List UInt8 → Vector UInt8 64)

/-- The field of a password. -/
def passwdField (passwd : List UInt16) : Vector UInt8 pwdSize :=
  strncpy pwdSize (toHex (sha512 (toLatin1 passwd)).toList)

/-- The request of `Widget::on_loginButton_clicked`. -/
def onLoginButtonClicked (cntstr pwdstr : List UInt16) : Option LoginSt :=
  if cntstr = [] ∨ pwdstr = [] then none
  else some ⟨strncpy cntSize (toLatin1 cntstr), passwdField sha512 pwdstr, reqLogin⟩

/-- The request of `registerWidget::on_pushButton_clicked`. -/
def onPushButtonClicked (cntstr pwdstr : List UInt16) : Option RegisterSt :=
  if cntstr = [] ∨ pwdstr = [] then none
  else some ⟨strncpy cntSize (toLatin1 cntstr), passwdField sha512 pwdstr, reqRegister⟩

end requests

/-! ## Fields -/

theorem ne_zero_of_mem_beforeZero {text : List UInt8} {b : UInt8} (h : b ∈ beforeZero text) :
    b ≠ 0 := by
  simpa using List.mem_takeWhile_imp h

/-- Behind its end a text reads as zero, and nowhere before it. -/
theorem beforeZero_getD_inj {a b : List UInt8} {i : Nat} :
    (beforeZero a).getD i 0 = (beforeZero b).getD i 0 ↔
      (beforeZero a)[i]? = (beforeZero b)[i]? := by
  rw [List.getD_eq_getElem?_getD, List.getD_eq_getElem?_getD]
  refine ⟨fun h => ?_, fun h => by rw [h]⟩
  cases ha : (beforeZero a)[i]? with
  | none =>
      cases hb : (beforeZero b)[i]? with
      | none => rfl
      | some c =>
          rw [ha, hb] at h
          exact absurd h.symm (ne_zero_of_mem_beforeZero (List.mem_of_getElem? hb))
  | some c =>
      cases hb : (beforeZero b)[i]? with
      | none =>
          rw [ha, hb] at h
          exact absurd h (ne_zero_of_mem_beforeZero (List.mem_of_getElem? ha))
      | some d =>
          rw [ha, hb] at h
          exact congrArg some h

/-- A field holds as much of the text as fits, and nothing else. -/
theorem strncpy_inj {size : Nat} {a b : List UInt8} :
    strncpy size a = strncpy size b ↔ (beforeZero a).take size = (beforeZero b).take size := by
  have hfields : strncpy size a = strncpy size b ↔
      ∀ i < size, (beforeZero a).getD i 0 = (beforeZero b).getD i 0 := by
    rw [Vector.ext_iff]
    simp only [strncpy, Vector.getElem_ofFn]
  rw [hfields]
  simp only [beforeZero_getD_inj]
  constructor
  · intro h
    refine List.ext_getElem? fun i => ?_
    rcases Nat.lt_or_ge i size with hi | hi
    · rw [List.getElem?_take_of_lt hi, List.getElem?_take_of_lt hi, h i hi]
    · rw [List.getElem?_take_eq_none hi, List.getElem?_take_eq_none hi]
  · intro h i hi
    have hget : ((beforeZero a).take size)[i]? = ((beforeZero b).take size)[i]? := by rw [h]
    rwa [List.getElem?_take_of_lt hi, List.getElem?_take_of_lt hi] at hget

theorem hexDigit_inj {m n : Nat} (hm : m < 16) (hn : n < 16) (h : hexDigit m = hexDigit n) :
    m = n := by
  have hdigits : ∀ m < 16, ∀ n < 16, hexDigit m = hexDigit n → m = n := by decide
  exact hdigits m hm n hn h

theorem hexDigit_ne_zero {n : Nat} (h : n < 16) : hexDigit n ≠ 0 := by
  have hdigits : ∀ n < 16, hexDigit n ≠ 0 := by decide
  exact hdigits n h

theorem toHex_cons (b : UInt8) (bytes : List UInt8) : toHex (b :: bytes) =
    hexDigit (b.toNat / 16) :: hexDigit (b.toNat % 16) :: toHex bytes := rfl

theorem length_toHex (bytes : List UInt8) : (toHex bytes).length = 2 * bytes.length := by
  induction bytes with
  | nil => rfl
  | cons b bytes ih =>
      rw [toHex_cons, List.length_cons, List.length_cons, ih, List.length_cons]
      omega

/-- A hexadecimal text can be read back. -/
theorem toHex_inj {bytes bytes' : List UInt8} (h : toHex bytes = toHex bytes') :
    bytes = bytes' := by
  induction bytes generalizing bytes' with
  | nil =>
      cases bytes' with
      | nil => rfl
      | cons b bytes' => cases h
  | cons b bytes ih =>
      cases bytes' with
      | nil => cases h
      | cons b' bytes' =>
          have hb := b.toNat_lt
          have hb' := b'.toNat_lt
          rw [toHex_cons, toHex_cons, List.cons.injEq, List.cons.injEq] at h
          have hhigh := hexDigit_inj (by omega) (by omega) h.1
          have hlow := hexDigit_inj (by omega) (by omega) h.2.1
          rw [ih h.2.2, UInt8.toNat_inj.mp (show b.toNat = b'.toNat by omega)]

theorem beforeZero_toHex (bytes : List UInt8) : beforeZero (toHex bytes) = toHex bytes := by
  refine List.takeWhile_eq_self_iff.mpr fun c hc => decide_eq_true ?_
  obtain ⟨b, -, hc⟩ := List.mem_flatMap.mp hc
  have hb := b.toNat_lt
  rw [List.mem_pair] at hc
  rcases hc with rfl | rfl
  · exact hexDigit_ne_zero (by omega)
  · exact hexDigit_ne_zero (by omega)

/-- The field of a password holds the whole hash. -/
theorem passwdField_inj {sha512 : List UInt8 → Vector UInt8 64} {passwd passwd' : List UInt16} :
    passwdField sha512 passwd = passwdField sha512 passwd' ↔
      sha512 (toLatin1 passwd) = sha512 (toLatin1 passwd') := by
  refine ⟨fun h => ?_, fun h => by rw [passwdField, passwdField, h]⟩
  have hfits : ∀ hash : Vector UInt8 64, (toHex hash.toList).length ≤ pwdSize := fun hash => by
    rw [length_toHex, Vector.length_toList]
    decide
  rw [passwdField, passwdField, strncpy_inj, beforeZero_toHex, beforeZero_toHex,
    List.take_of_length_le (hfits _), List.take_of_length_le (hfits _)] at h
  exact Vector.toList_inj.mp (toHex_inj h)

/-! ## Users -/

/-- What a request says of an account name. -/
def account (cntstr : List UInt16) : List UInt8 := (beforeZero (toLatin1 cntstr)).take cntSize

/-- Without a collision of the hash, the fields of two requests differ just when the account names
differ within the field, or the passwords as Latin-1 texts.  A registration has the same fields. -/
theorem credentials_iff {sha512 : List UInt8 → Vector UInt8 64}
    {cntstr pwdstr cntstr' pwdstr' : List UInt16} (hcount : cntstr ≠ []) (hpasswd : pwdstr ≠ [])
    (hcount' : cntstr' ≠ []) (hpasswd' : pwdstr' ≠ [])
    (hsha512 : sha512 (toLatin1 pwdstr) = sha512 (toLatin1 pwdstr') →
      toLatin1 pwdstr = toLatin1 pwdstr') :
    ∃ login login' register,
      onLoginButtonClicked sha512 cntstr pwdstr = some login ∧
      onLoginButtonClicked sha512 cntstr' pwdstr' = some login' ∧
      (login.count ≠ login'.count ∨ login.passwd ≠ login'.passwd ↔
        account cntstr ≠ account cntstr' ∨ toLatin1 pwdstr ≠ toLatin1 pwdstr') ∧
      onPushButtonClicked sha512 cntstr pwdstr = some register ∧
      register.count = login.count ∧ register.passwd = login.passwd := by
  have hsome : ¬ (cntstr = [] ∨ pwdstr = []) := not_or.mpr ⟨hcount, hpasswd⟩
  have hsome' : ¬ (cntstr' = [] ∨ pwdstr' = []) := not_or.mpr ⟨hcount', hpasswd'⟩
  refine ⟨_, _, _, if_neg hsome, if_neg hsome', ?_, if_neg hsome, rfl, rfl⟩
  refine or_congr (not_congr strncpy_inj) (not_congr (passwdField_inj.trans ⟨hsha512, fun h => ?_⟩))
  rw [h]

/-- The hash of two passwords. -/
def sha512OfTwo (text : List UInt8) : Vector UInt8 64 :=
  if text = [105, 111, 116] then
    #v[71, 245, 179, 130, 116, 166, 8, 78, 22, 50, 228, 254, 159, 221, 147, 63, 80, 106, 162, 227,
      211, 39, 104, 55, 69, 166, 253, 158, 116, 156, 8, 222, 74, 61, 239, 91, 11, 17, 222, 123,
      90, 9, 98, 197, 160, 179, 211, 224, 228, 122, 73, 28, 241, 133, 82, 172, 35, 234, 73, 180,
      245, 232, 216, 76]
  else if text = [103, 97, 116, 101, 119, 97, 121] then
    #v[49, 178, 233, 240, 70, 234, 12, 62, 116, 158, 48, 155, 160, 46, 49, 234, 74, 182, 254, 170,
      116, 57, 20, 91, 187, 137, 132, 14, 156, 53, 186, 196, 80, 109, 246, 89, 3, 208, 61, 172,
      61, 70, 9, 26, 25, 99, 222, 45, 61, 183, 100, 31, 130, 219, 122, 33, 137, 156, 204, 135,
      105, 204, 235, 230]
  else Vector.replicate 64 0

/-- Two passwords of one account. -/
theorem credentials_iff_passwords :
    ∃ login login', onLoginButtonClicked sha512OfTwo [97] [105, 111, 116] = some login ∧
      onLoginButtonClicked sha512OfTwo [97] [103, 97, 116, 101, 119, 97, 121] = some login' ∧
      (login.count ≠ login'.count ∨ login.passwd ≠ login'.passwd) := by
  obtain ⟨login, login', -, hlogin, hlogin', hiff, -⟩ :=
    @credentials_iff sha512OfTwo [97] [105, 111, 116] [97] [103, 97, 116, 101, 119, 97, 121]
      (by decide) (by decide) (by decide) (by decide)
      fun h => absurd (congrArg (fun hash => hash[0]) h) (by decide)
  exact ⟨login, login', hlogin, hlogin', hiff.mpr (.inr (by decide))⟩

/-- Two names of two characters outside of Latin-1 are not told apart, whatever the hash is. -/
theorem credentials_confused : ¬ ∃ sha512 : List UInt8 → Vector UInt8 64,
    ∀ cntstr pwdstr cntstr' pwdstr' : List UInt16, (cntstr, pwdstr) ≠ (cntstr', pwdstr') →
      cntstr ≠ [] → pwdstr ≠ [] → cntstr' ≠ [] → pwdstr' ≠ [] →
      (sha512 (toLatin1 pwdstr) = sha512 (toLatin1 pwdstr') → toLatin1 pwdstr = toLatin1 pwdstr') →
      ∃ login login', onLoginButtonClicked sha512 cntstr pwdstr = some login ∧
        onLoginButtonClicked sha512 cntstr' pwdstr' = some login' ∧
        (login.count ≠ login'.count ∨ login.passwd ≠ login'.passwd) := by
  rintro ⟨sha512, h⟩
  obtain ⟨login, login', hlogin, hlogin', hdiffer⟩ := h [0x5F20, 0x4E09] [105, 111, 116]
    [0x674E, 0x56DB] [105, 111, 116] (by decide) (by decide) (by decide) (by decide) (by decide)
    fun _ => rfl
  rw [onLoginButtonClicked, if_neg (by decide), Option.some.injEq] at hlogin hlogin'
  rw [← hlogin, ← hlogin'] at hdiffer
  exact hdiffer.elim (absurd rfl) (absurd rfl)

end IotEdge.LoginRequest
