import IotEdge.Firmware.IicBus
import IotEdge.Firmware.OledGram

/-!
# The panel of the OLED

The panel is driven by a controller on the I2C bus, with a memory of 128 columns and 8 pages.  The
controller is no part of the firmware: it is any device that does on the bus what the data sheet
says of page addressing mode (`Controller`).  A command sets the page or the column where the next
byte goes, and a byte moves the column on.  That mode is the one after a reset; the argument 0x10
that `OLED_Init` sends after the command 0x20 names another by its last two bits.

The firmware sends every command and every byte in a transfer of its own (`oledWrByte`).
`oledPages_holds` is about the loop that all the routines for the whole screen share: wherever the
controller stood, they leave in its memory what they send.
-/

open TwoWire

namespace IotEdge.Oled

open IicBus (Wire)

universe u

/-! ## The driver -/

section

variable {σ : Type u} (d : Device σ)

/-- `Write_IIC_Command` and `Write_IIC_Data` differ in the control byte. -/
def writeIic (control byte : UInt8) (w : Wire σ) : Wire σ :=
  let w := w.start d
  let w := w.sendByte d 0x78
  let w := (w.waitAck d).2
  let w := w.sendByte d control
  let w := (w.waitAck d).2
  let w := w.sendByte d byte
  let w := (w.waitAck d).2
  w.stop d

/-- `Write_IIC_Command`. -/
def writeIicCommand (iicCommand : UInt8) (w : Wire σ) : Wire σ := writeIic d 0x00 iicCommand w

/-- `Write_IIC_Data`. -/
def writeIicData (iicData : UInt8) (w : Wire σ) : Wire σ := writeIic d 0x40 iicData w

/-- `OLED_WR_Byte`. -/
def oledWrByte (data cmd : UInt8) (w : Wire σ) : Wire σ :=
  if cmd ≠ 0 then writeIicData d data w else writeIicCommand d data w

/-- `OLED_Set_Pos`. -/
def oledSetPos (x y : UInt8) (w : Wire σ) : Wire σ :=
  let w := oledWrByte d (0xb0 + y) 0 w
  let w := oledWrByte d (((x &&& 0xf0) >>> 4) ||| 0x10) 0 w
  oledWrByte d (x &&& 0x0f) 0 w

/-- Bytes for the memory, one after the other. -/
def oledData (bytes : List UInt8) (w : Wire σ) : Wire σ :=
  bytes.foldl (fun w byte => oledWrByte d byte 1 w) w

/-- A page of the screen. -/
def oledPage (pixels : Gram) (w : Wire σ) (page : UInt8) : Wire σ :=
  let w := oledWrByte d (0xb0 + page) 0 w
  let w := oledWrByte d 0x00 0 w
  let w := oledWrByte d 0x10 0 w
  oledData d ((List.range 128).map fun n => pixels (UInt8.ofNat n) page) w

/-- The loop over the pages that the routines for the whole screen share. -/
def oledPages (pixels : Gram) (w : Wire σ) : Wire σ :=
  ((List.range 8).map UInt8.ofNat).foldl (oledPage d pixels) w

/-- `fill_picture`. -/
def fillPicture (fillData : UInt8) (w : Wire σ) : Wire σ := oledPages d (fun _ _ => fillData) w

/-- The table `Picture1`, by column and page. -/
def pictureGram (picture1 : Vector UInt8 1024) : Gram := fun x y =>
  picture1.toArray.getD (y.toNat * 128 + x.toNat) 0

/-- `picture_1`. -/
def picture1 (table : Vector UInt8 1024) (w : Wire σ) : Wire σ := oledPages d (pictureGram table) w

/-- `OLED_Clear`. -/
def oledClear (w : Wire σ) : Wire σ := oledPages d (fun _ _ => 0) w

/-- `OLED_On`. -/
def oledOn (w : Wire σ) : Wire σ := oledPages d (fun _ _ => 1) w

/-- `OLED_RefreshGram`. -/
def oledRefreshGram (g : Gram) (w : Wire σ) : Wire σ := oledPages d g w

/-- The requests of a transfer. -/
def writeRequests (control byte : UInt8) : List Request :=
  [.start, .send 0x78, .wait, .send control, .wait, .send byte, .wait, .stop]

/-- A transfer takes the device from one state to another. -/
def Takes (s : σ) (control byte : UInt8) (s' : σ) : Prop := ∃ replies,
  (Session.mk .free s).requests d (writeRequests control byte) = some (replies, ⟨.free, s'⟩)

end

/-! ## The controller -/

/-- Bytes in the columns from `x` on. -/
def Gram.write (ram : Gram) (page x : UInt8) (bytes : List UInt8) : Gram := fun x' page' =>
  if page' = page ∧ x.toNat ≤ x'.toNat ∧ x'.toNat < x.toNat + bytes.length then
    bytes.getD (x'.toNat - x.toNat) 0
  else ram x' page'

/-- What the firmware relies on in the controller of the panel. -/
structure Controller (σ : Type u) where
  device : Device σ
  /-- The controller is between two transfers, in page addressing mode, and expects no argument of a
  command: its memory, by column and page, and the page and the column where the next byte goes. -/
  At : σ → Gram → UInt8 → UInt8 → Prop
  /-- The commands `0xb0` to `0xb7` select a page. -/
  page {s : σ} {ram : Gram} {page column : UInt8} (h : At s ram page column) {y : UInt8}
    (hy : y < 8) : ∃ s', Takes device s 0x00 (0xb0 + y) s' ∧ At s' ram y column
  /-- The commands `0x00` to `0x0f` set the low half of the column. -/
  low {s : σ} {ram : Gram} {page column : UInt8} (h : At s ram page column) {n : UInt8}
    (hn : n < 16) : ∃ s', Takes device s 0x00 n s' ∧ At s' ram page (column / 16 * 16 + n)
  /-- The commands `0x10` to `0x17` set the high half of the column. -/
  high {s : σ} {ram : Gram} {page column : UInt8} (h : At s ram page column) {n : UInt8}
    (hn : n < 8) :
    ∃ s', Takes device s 0x00 (n ||| 0x10) s' ∧ At s' ram page (n * 16 + column % 16)
  /-- A byte for the memory moves the column on, and stays in the page. -/
  data {s : σ} {ram : Gram} {page column : UInt8} (h : At s ram page column)
    (hcolumn : column < 128) (byte : UInt8) : ∃ s', Takes device s 0x40 byte s' ∧
      At s' (Gram.write ram page column [byte]) page ((column + 1) % 128)

variable {σ : Type u} {c : Controller σ}

namespace Controller

/-- The lines are free, and the controller is there. -/
def Stands (c : Controller σ) (w : Wire σ) (ram : Gram) (page column : UInt8) : Prop :=
  ∃ s, w.Shows ⟨.free, s⟩ ∧ c.At s ram page column

/-- The controller holds `ram`, wherever the next byte goes. -/
def Holds (c : Controller σ) (w : Wire σ) (ram : Gram) : Prop :=
  ∃ page column, c.Stands w ram page column

end Controller

/-! ## Commands -/

section Commands

variable {w : Wire σ} {ram : Gram} {page column : UInt8}

/-- A transfer on the lines. -/
theorem writeIic_shows {s s' : σ} {control byte : UInt8} (hw : w.Shows ⟨.free, s⟩)
    (h : Takes c.device s control byte s') :
    (writeIic c.device control byte w).Shows ⟨.free, s'⟩ := by
  obtain ⟨replies, hrequests⟩ := h
  exact (Wire.calls_refines hw hrequests).2

/-- A page address selects the page. -/
theorem wrByte_page (h : c.Stands w ram page column) {y : UInt8} (hy : y < 8) :
    c.Stands (oledWrByte c.device (0xb0 + y) 0 w) ram y column := by
  obtain ⟨s, hw, hs⟩ := h
  obtain ⟨s', htakes, hs'⟩ := c.page hs hy
  exact ⟨s', writeIic_shows hw htakes, hs'⟩

/-- The command for the low half of the column. -/
theorem wrByte_low (h : c.Stands w ram page column) {n : UInt8} (hn : n < 16) :
    c.Stands (oledWrByte c.device n 0 w) ram page (column / 16 * 16 + n) := by
  obtain ⟨s, hw, hs⟩ := h
  obtain ⟨s', htakes, hs'⟩ := c.low hs hn
  exact ⟨s', writeIic_shows hw htakes, hs'⟩

/-- The command for the high half of the column. -/
theorem wrByte_high (h : c.Stands w ram page column) {n : UInt8} (hn : n < 8) :
    c.Stands (oledWrByte c.device (n ||| 0x10) 0 w) ram page (n * 16 + column % 16) := by
  obtain ⟨s, hw, hs⟩ := h
  obtain ⟨s', htakes, hs'⟩ := c.high hs hn
  exact ⟨s', writeIic_shows hw htakes, hs'⟩

theorem wrByte_data (h : c.Stands w ram page column) (hcolumn : column < 128) (byte : UInt8) :
    c.Stands (oledWrByte c.device byte 1 w) (Gram.write ram page column [byte]) page
      ((column + 1) % 128) := by
  obtain ⟨s, hw, hs⟩ := h
  obtain ⟨s', htakes, hs'⟩ := c.data hs hcolumn byte
  exact ⟨s', writeIic_shows hw htakes, hs'⟩

/-- The two halves are the column. -/
theorem column_eq {x column : UInt8} (hx : x < 128) :
    (x / 16 * 16 + column % 16) / 16 * 16 + x % 16 = x := by
  have hx' : x.toNat < 128 := UInt8.lt_iff_toNat_lt.mp hx
  apply UInt8.toNat_inj.mp
  simp only [UInt8.toNat_add, UInt8.toNat_mul, UInt8.toNat_div, UInt8.toNat_mod]
  have h16 : (16 : UInt8).toNat = 16 := rfl
  rw [h16]
  omega

theorem nibbles (x : UInt8) : (x &&& 0xf0) >>> 4 = x / 16 ∧ x &&& 0x0f = x % 16 := by
  have hall : ∀ n < 256, (UInt8.ofNat n &&& 0xf0) >>> 4 = UInt8.ofNat n / 16 ∧
      UInt8.ofNat n &&& 0x0f = UInt8.ofNat n % 16 := by decide +kernel
  have h := hall x.toNat x.toNat_lt
  rwa [UInt8.ofNat_toNat] at h

/-- `OLED_Set_Pos` sets the position. -/
theorem oledSetPos_stands (h : c.Stands w ram page column) {x y : UInt8} (hx : x < 128)
    (hy : y < 8) : c.Stands (oledSetPos c.device x y w) ram y x := by
  obtain ⟨hhigh, hlow⟩ := nibbles x
  have hx8 : x / 16 < 8 := by
    rw [UInt8.lt_iff_toNat_lt, UInt8.toNat_div]
    exact Nat.div_lt_of_lt_mul (UInt8.lt_iff_toNat_lt.mp hx)
  have hstands := wrByte_low (wrByte_high (wrByte_page h hy) hx8)
    (UInt8.mod_lt x (by decide : (0 : UInt8) < 16))
  rw [column_eq hx] at hstands
  rw [oledSetPos, hhigh, hlow]
  exact hstands

end Commands

/-! ## Bytes for the memory -/

theorem write_nil (ram : Gram) (page x : UInt8) : Gram.write ram page x [] = ram := by
  funext x' page'
  rw [Gram.write, List.length_nil, if_neg (by omega)]

theorem write_singleton (ram : Gram) (page x byte : UInt8) :
    Gram.write ram page x [byte] =
      fun x' page' => if x' = x ∧ page' = page then byte else ram x' page' := by
  funext x' page'
  rw [Gram.write]
  by_cases h : x' = x ∧ page' = page
  · obtain ⟨rfl, rfl⟩ := h
    simp
  · have hne : ¬ (page' = page ∧ x.toNat ≤ x'.toNat ∧ x'.toNat < x.toNat + [byte].length) := by
      rintro ⟨hpage, hle, hlt⟩
      rw [List.length_singleton] at hlt
      exact h ⟨UInt8.toNat_inj.mp (by omega), hpage⟩
    rw [if_neg h, if_neg hne]

/-- The column moves on. -/
theorem column_succ {x : UInt8} (hx : x.toNat + 1 < 128) : ((x + 1) % 128).toNat = x.toNat + 1 := by
  rw [UInt8.toNat_mod, UInt8.toNat_add]
  have h1 : (1 : UInt8).toNat = 1 := rfl
  have h128 : (128 : UInt8).toNat = 128 := rfl
  rw [h1, h128]
  omega

theorem write_cons (ram : Gram) (page x byte : UInt8) (bytes : List UInt8)
    (hx : x.toNat + 1 < 128) :
    Gram.write (Gram.write ram page x [byte]) page ((x + 1) % 128) bytes =
      Gram.write ram page x (byte :: bytes) := by
  funext x' page'
  rw [write_singleton]
  simp only [Gram.write, column_succ hx, List.length_cons]
  by_cases hpage : page' = page
  · by_cases hx' : x' = x
    · subst hx'
      simp [hpage]
    · have hne : x'.toNat ≠ x.toNat := fun h => hx' (UInt8.toNat_inj.mp h)
      by_cases hrest : x.toNat + 1 ≤ x'.toNat ∧ x'.toNat < x.toNat + 1 + bytes.length
      · have hsub : x'.toNat - x.toNat = (x'.toNat - (x.toNat + 1)) + 1 := by omega
        rw [if_pos ⟨hpage, hrest⟩, if_pos ⟨hpage, by omega, by omega⟩, hsub, List.getD_cons_succ]
      · rw [if_neg fun h => hrest h.2, if_neg fun h => hx' h.1, if_neg (by omega)]
  · rw [if_neg fun h => hpage h.1, if_neg fun h => hpage h.2, if_neg fun h => hpage h.1]

theorem oledData_cons (d : Device σ) (byte : UInt8) (bytes : List UInt8) (w : Wire σ) :
    oledData d (byte :: bytes) w = oledData d bytes (oledWrByte d byte 1 w) := rfl

/-- Bytes that fit are written from the column on. -/
theorem oledData_stands {w : Wire σ} {ram : Gram} {page x : UInt8} (h : c.Stands w ram page x)
    {bytes : List UInt8} (hfits : x.toNat + bytes.length ≤ 128) :
    ∃ column, c.Stands (oledData c.device bytes w) (Gram.write ram page x bytes) page column := by
  induction bytes generalizing w ram x with
  | nil =>
      rw [write_nil]
      exact ⟨_, h⟩
  | cons byte bytes ih =>
      rw [List.length_cons] at hfits
      have hx : x < 128 := by
        rw [UInt8.lt_iff_toNat_lt]
        change x.toNat < 128
        omega
      have hbyte := wrByte_data h hx byte
      cases bytes with
      | nil => exact ⟨_, hbyte⟩
      | cons byte' bytes =>
          rw [List.length_cons] at hfits
          have hx : x.toNat + 1 < 128 := by omega
          rw [← write_cons _ _ _ _ _ hx, oledData_cons]
          exact ih hbyte (by rw [column_succ hx, List.length_cons]; omega)

/-! ## Pages -/

/-- A whole row of bytes. -/
theorem write_row (ram pixels : Gram) (y : UInt8) :
    Gram.write ram y 0 ((List.range 128).map fun n => pixels (UInt8.ofNat n) y) =
      fun x page => if page = y ∧ x < 128 then pixels x page else ram x page := by
  funext x page
  have h0 : (0 : UInt8).toNat = 0 := rfl
  have hx : x < 128 ↔ x.toNat < 128 := UInt8.lt_iff_toNat_lt
  rw [Gram.write, h0, List.length_map, List.length_range]
  by_cases h : page = y ∧ x < 128
  · obtain ⟨rfl, hlt⟩ := h
    rw [hx] at hlt
    rw [if_pos ⟨rfl, Nat.zero_le _, by omega⟩, if_pos ⟨rfl, hx.mpr hlt⟩, Nat.sub_zero,
      List.getD_eq_getElem _ _ (by rw [List.length_map, List.length_range]; exact hlt),
      List.getElem_map, List.getElem_range, UInt8.ofNat_toNat]
  · rw [if_neg h, if_neg fun h' => h ⟨h'.1, hx.mpr (by omega)⟩]

/-- A page is written, wherever the controller stood. -/
theorem oledPage_holds {w : Wire σ} {ram : Gram} (h : c.Holds w ram) (pixels : Gram)
    {y : UInt8} (hy : y < 8) : c.Holds (oledPage c.device pixels w y) fun x page =>
      if page = y ∧ x < 128 then pixels x page else ram x page := by
  obtain ⟨page, column, hstands⟩ := h
  have hstart := wrByte_high (wrByte_low (wrByte_page hstands hy) (by decide : (0 : UInt8) < 16))
    (by decide : (0 : UInt8) < 8)
  have hcolumn : 0 * 16 + (column / 16 * 16 + 0) % 16 = (0 : UInt8) := by
    apply UInt8.toNat_inj.mp
    simp only [UInt8.toNat_add, UInt8.toNat_mul, UInt8.toNat_div, UInt8.toNat_mod]
    have h16 : (16 : UInt8).toNat = 16 := rfl
    have h0 : (0 : UInt8).toNat = 0 := rfl
    rw [h16, h0]
    omega
  rw [hcolumn] at hstart
  obtain ⟨column', hdata⟩ := @oledData_stands _ _ _ _ _ _ hstart
    ((List.range 128).map fun n => pixels (UInt8.ofNat n) y) (by simp)
  rw [write_row] at hdata
  exact ⟨y, column', hdata⟩

/-- The pages are written one after the other. -/
theorem oledPages_foldl {pixels : Gram} {pages : List UInt8} (hpages : ∀ y ∈ pages, y < 8)
    {w : Wire σ} {ram : Gram} (h : c.Holds w ram) :
    c.Holds (pages.foldl (oledPage c.device pixels) w) fun x page =>
      if page ∈ pages ∧ x < 128 then pixels x page else ram x page := by
  induction pages generalizing w ram with
  | nil => simpa using h
  | cons y pages ih =>
      have hpage := oledPage_holds h pixels (hpages y List.mem_cons_self)
      have hrest := ih (fun y' hy' => hpages y' (List.mem_cons_of_mem y hy')) hpage
      have hram : (fun x page => if page ∈ pages ∧ x < 128 then pixels x page
            else if page = y ∧ x < 128 then pixels x page else ram x page) =
          fun x page => if page ∈ y :: pages ∧ x < 128 then pixels x page else ram x page := by
        funext x page
        by_cases hx : x < 128
        · by_cases hmem : page ∈ pages
          · simp [hx, hmem]
          · simp [hx, hmem]
        · simp [hx]
      rw [hram] at hrest
      exact hrest

/-- Whatever the controller held, and wherever it stood, its memory then is what was sent. -/
theorem oledPages_holds {w : Wire σ} {ram : Gram} (h : c.Holds w ram) (pixels : Gram) :
    c.Holds (oledPages c.device pixels w) fun x page =>
      if page < 8 ∧ x < 128 then pixels x page else ram x page := by
  have hmem : ∀ y : UInt8, y ∈ (List.range 8).map UInt8.ofNat ↔ y < 8 := by
    intro y
    rw [List.mem_map, UInt8.lt_iff_toNat_lt]
    constructor
    · rintro ⟨n, hn, rfl⟩
      rw [List.mem_range] at hn
      rw [UInt8.toNat_ofNat', Nat.mod_eq_of_lt (by omega)]
      exact hn
    · intro hy
      exact ⟨y.toNat, List.mem_range.mpr hy, UInt8.ofNat_toNat⟩
  have hpages := @oledPages_foldl _ _ pixels _ (fun y hy => (hmem y).mp hy) _ _ h
  simp only [hmem] at hpages
  exact hpages

/-! ## A controller -/

/-- Where the next byte goes after a byte for the memory. -/
inductive Mode where
  | horizontal
  | vertical
  | page
  deriving DecidableEq, Repr

/-- What the next byte of a transfer is to the controller. -/
inductive Stage where
  | select
  | control
  | command
  | data
  deriving DecidableEq, Repr

/-- The state of an SSD1306. -/
structure Ssd1306 where
  /-- By column and page. -/
  ram : Gram
  page : UInt8
  column : UInt8
  mode : Mode
  /-- The command that the next command byte is the argument of. -/
  argument : Option UInt8
  stage : Stage

namespace Ssd1306

/-- The commands that take an argument. -/
def withArgument : List UInt8 := [0x20, 0x81, 0xa8, 0xd3, 0xd5, 0xd9, 0xda, 0xdb, 0x8d]

/-- The argument of the command `0x20`. -/
def modeOf (byte : UInt8) : Mode :=
  if byte % 4 = 0 then .horizontal else if byte % 4 = 1 then .vertical else .page

/-- A command byte.  The page and the column are for page addressing mode only. -/
def command (s : Ssd1306) (byte : UInt8) : Ssd1306 :=
  match s.argument with
  | some command =>
      { s with argument := none, mode := if command = 0x20 then modeOf byte else s.mode }
  | none =>
      if s.mode = .page ∧ byte &&& 0xf8 = 0xb0 then { s with page := byte % 8 }
      else if s.mode = .page ∧ byte &&& 0xf0 = 0x00 then
        { s with column := s.column / 16 * 16 + byte % 16 }
      else if s.mode = .page ∧ byte &&& 0xf8 = 0x10 then
        { s with column := byte % 8 * 16 + s.column % 16 }
      else { s with argument := if byte ∈ withArgument then some byte else none }

/-- A byte for the memory. -/
def data (s : Ssd1306) (byte : UInt8) : Ssd1306 :=
  let s := { s with ram := Gram.write s.ram s.page s.column [byte] }
  match s.mode with
  | .page => { s with column := (s.column + 1) % 128 }
  | .horizontal =>
      { s with
        column := (s.column + 1) % 128
        page := if s.column = 127 then (s.page + 1) % 8 else s.page }
  | .vertical =>
      { s with
        page := (s.page + 1) % 8
        column := if s.page = 7 then (s.column + 1) % 128 else s.column }

/-- The controller on the bus. -/
def device : Device Ssd1306 where
  start s := { s with stage := .select }
  stop s := s
  receive s byte :=
    match s.stage with
    | .select => (byte = 0x78, { s with stage := if byte = 0x78 then .control else s.stage })
    | .control =>
        if byte = 0x00 then (true, { s with stage := .command })
        else if byte = 0x40 then (true, { s with stage := .data })
        else (false, s)
    | .command => (true, s.command byte)
    | .data => (true, s.data byte)
  sends _ := none
  sent s _ := s

/-- Between two transfers in page addressing mode. -/
def Paged (s : Ssd1306) (ram : Gram) (page column : UInt8) : Prop :=
  ∃ stage, s = ⟨ram, page, column, .page, none, stage⟩

/-- The control byte says what the next byte is. -/
theorem takes {s s' : Ssd1306} {control byte : UInt8} (stage : Stage)
    (hcontrol : device.receive { s with stage := .control } control =
      (true, { s with stage := stage }))
    (hbyte : device.receive { s with stage := stage } byte = (true, s')) :
    Takes device s control byte s' :=
  ⟨_, Session.requests_of_cons rfl <|
    Session.requests_of_cons (Session.send_accepted rfl) <|
    Session.requests_of_cons (Session.wait_listens rfl) <|
    Session.requests_of_cons (Session.send_accepted hcontrol) <|
    Session.requests_of_cons (Session.wait_listens rfl) <|
    Session.requests_of_cons (Session.send_accepted hbyte) <|
    Session.requests_of_cons (Session.wait_listens rfl) <| Session.requests_of_cons rfl rfl⟩

variable {s : Ssd1306} {ram : Gram} {page column : UInt8}

theorem takes_page (h : s.Paged ram page column) {y : UInt8} (hy : y < 8) :
    ∃ s', Takes device s 0x00 (0xb0 + y) s' ∧ s'.Paged ram y column := by
  obtain ⟨stage, rfl⟩ := h
  have hall : ∀ n < 8, (0xb0 + UInt8.ofNat n) &&& 0xf8 = 0xb0 ∧
      (0xb0 + UInt8.ofNat n) % 8 = UInt8.ofNat n := by decide
  obtain ⟨hmask, hvalue⟩ := hall y.toNat (UInt8.lt_iff_toNat_lt.mp hy)
  rw [UInt8.ofNat_toNat] at hmask hvalue
  refine ⟨_, takes .command rfl rfl, .command, ?_⟩
  dsimp only [command]
  rw [if_pos ⟨rfl, hmask⟩, hvalue]

theorem takes_low (h : s.Paged ram page column) {n : UInt8} (hn : n < 16) :
    ∃ s', Takes device s 0x00 n s' ∧ s'.Paged ram page (column / 16 * 16 + n) := by
  obtain ⟨stage, rfl⟩ := h
  have hall : ∀ m < 16, UInt8.ofNat m &&& 0xf8 ≠ 0xb0 ∧ UInt8.ofNat m &&& 0xf0 = 0x00 ∧
      UInt8.ofNat m % 16 = UInt8.ofNat m := by decide
  obtain ⟨hpage, hmask, hvalue⟩ := hall n.toNat (UInt8.lt_iff_toNat_lt.mp hn)
  rw [UInt8.ofNat_toNat] at hpage hmask hvalue
  refine ⟨_, takes .command rfl rfl, .command, ?_⟩
  dsimp only [command]
  rw [if_neg fun h => hpage h.2, if_pos ⟨rfl, hmask⟩, hvalue]

theorem takes_high (h : s.Paged ram page column) {n : UInt8} (hn : n < 8) :
    ∃ s', Takes device s 0x00 (n ||| 0x10) s' ∧ s'.Paged ram page (n * 16 + column % 16) := by
  obtain ⟨stage, rfl⟩ := h
  have hall : ∀ m < 8, (UInt8.ofNat m ||| 0x10) &&& 0xf8 ≠ 0xb0 ∧
      (UInt8.ofNat m ||| 0x10) &&& 0xf0 ≠ 0x00 ∧ (UInt8.ofNat m ||| 0x10) &&& 0xf8 = 0x10 ∧
      (UInt8.ofNat m ||| 0x10) % 8 = UInt8.ofNat m := by decide
  obtain ⟨hpage, hlow, hmask, hvalue⟩ := hall n.toNat (UInt8.lt_iff_toNat_lt.mp hn)
  rw [UInt8.ofNat_toNat] at hpage hlow hmask hvalue
  refine ⟨_, takes .command rfl rfl, .command, ?_⟩
  dsimp only [command]
  rw [if_neg fun h => hpage h.2, if_neg fun h => hlow h.2, if_pos ⟨rfl, hmask⟩, hvalue]

theorem takes_data (h : s.Paged ram page column) (byte : UInt8) :
    ∃ s', Takes device s 0x40 byte s' ∧
      s'.Paged (Gram.write ram page column [byte]) page ((column + 1) % 128) := by
  obtain ⟨stage, rfl⟩ := h
  exact ⟨_, takes .data rfl rfl, .data, rfl⟩

end Ssd1306

/-- An SSD1306. -/
def ssd1306 : Controller Ssd1306 where
  device := Ssd1306.device
  At := Ssd1306.Paged
  page := Ssd1306.takes_page
  low := Ssd1306.takes_low
  high := Ssd1306.takes_high
  data h _ := Ssd1306.takes_data h

/-- After a reset, with an empty memory. -/
def Ssd1306.reset : Ssd1306 := ⟨fun _ _ => 0, 0, 0, .page, none, .select⟩

theorem reset_holds : ssd1306.Holds (Wire.init .reset) fun _ _ => 0 :=
  ⟨0, 0, _, Wire.init_shows _, .select, rfl⟩

end IotEdge.Oled
