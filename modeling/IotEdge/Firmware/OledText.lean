import IotEdge.Lib.Decimal
import IotEdge.Firmware.OledPanel

/-!
# Text on the OLED

A character of size 16 is eight columns wide and two pages high, so the panel has 64 cells for such
characters, 16 in a line.  The table of size 16 has the characters from the blank to the tilde; for
another one `oledShowChar` reads outside of the table.  `oledShowString` goes from cell to cell, and
on to the next line (`oledShowString_shows`), but it counts the characters in a byte: with a string
of 256 characters or more it never returns (`oledShowString_ne_some`).  `oledShowNum` writes a number with
blanks for the zeros in front of it (`oledShowNum_shows`).
-/

open TwoWire

namespace IotEdge.Oled

open IicBus (Wire)

universe u

/-- The tables `F8X16` and `F6x8`. -/
structure Font where
  f8x16 : Vector UInt8 1520
  f6x8 : Vector (Vector UInt8 6) 92

/-- A font of blanks. -/
def emptyFont : Font := ⟨.replicate 1520 0, .replicate 92 (.replicate 6 0)⟩

/-! ## The routines -/

section

variable {σ : Type u} (d : Device σ) (font : Font)

/-- Eight bytes of a table.  `none` if they are not all there. -/
def oledTable (table : Array UInt8) (first : Nat) (w : Wire σ) : Option (Wire σ) :=
  ((List.range 8).mapM fun i => table[first + i]?).map fun bytes => oledData d bytes w

/-- `OLED_ShowChar`.  `none` if it reads outside of a table. -/
def oledShowChar (x y chr charSize : UInt8) (w : Wire σ) : Option (Wire σ) :=
  let c := chr - 0x20
  let (x, y) := if x > 128 - 1 then (0, y + 2) else (x, y)
  if charSize = 16 then do
    let w := oledSetPos d x y w
    let w ← oledTable d font.f8x16.toArray (c.toNat * 16) w
    let w := oledSetPos d x (y + 1) w
    oledTable d font.f8x16.toArray (c.toNat * 16 + 8) w
  else
    let w := oledSetPos d x y w
    font.f6x8.toArray[c.toNat]?.map fun row => oledData d row.toList w

/-- The loop of `OLED_ShowString`.  `chr` holds the characters before the terminator.  `none` if the
loop has not ended after `fuel` rounds, and `some none` if it reads outside of a table. -/
def oledShowString (charSize : UInt8) (chr : List UInt8) :
    Nat → UInt8 → UInt8 → UInt8 → Wire σ → Option (Option (Wire σ))
  | 0, _, _, _, _ => none
  | fuel + 1, j, x, y, w =>
      if chr.getD j.toNat 0 = 0 then some (some w)
      else
        match oledShowChar d font x y (chr.getD j.toNat 0) charSize w with
        | none => some none
        | some w =>
            let x := x + 8
            let (x, y) := if x > 120 then (0, y + 2) else (x, y)
            oledShowString charSize chr fuel (j + 1) x y w

/-- `oled_pow`. -/
def oledPow (m : UInt8) : Nat → UInt32
  | 0 => 1
  | n + 1 => oledPow m n * m.toUInt32

/-- The loop of `OLED_ShowNum`, from the digit `t` on. -/
def oledShowNum (x y : UInt8) (num : UInt32) (len size2 : UInt8) (t : Nat) (enshow : Bool)
    (w : Wire σ) : Option (Wire σ) :=
  if t < len.toNat then
    let temp := (num / oledPow 10 (len.toNat - t - 1) % 10).toUInt8
    let x' := x + size2 / 2 * UInt8.ofNat t
    if !enshow ∧ t < len.toNat - 1 then
      if temp = 0 then
        (oledShowChar d font x' y 0x20 size2 w).bind
          (oledShowNum x y num len size2 (t + 1) enshow)
      else
        (oledShowChar d font x' y (temp + 0x30) size2 w).bind
          (oledShowNum x y num len size2 (t + 1) true)
    else
      (oledShowChar d font x' y (temp + 0x30) size2 w).bind
        (oledShowNum x y num len size2 (t + 1) enshow)
  else some w
termination_by len.toNat - t

end

/-! ## Cells -/

/-- The column and the page of a cell. -/
def cellX (k : Nat) : UInt8 := UInt8.ofNat (8 * (k % 16))

def cellY (k : Nat) : UInt8 := UInt8.ofNat (2 * (k / 16))

/-- The cell of a column and a page. -/
def cellOf (x page : UInt8) : Nat := page.toNat / 2 * 16 + x.toNat / 8

/-- A character of the table of size 16. -/
def Printable (chr : UInt8) : Prop := 0x20 ≤ chr ∧ chr ≤ 0x7e

instance : DecidablePred Printable := fun _ => inferInstanceAs (Decidable (_ ∧ _))

variable (font : Font)

/-- A byte of the table. -/
def Font.byte (n : Nat) : UInt8 := font.f8x16.toArray[n]?.getD 0

/-- A byte of a character. -/
def glyph (chr x page : UInt8) : UInt8 :=
  font.byte ((chr - 0x20).toNat * 16 + x.toNat % 8 + page.toNat % 2 * 8)

/-- Text in the cells from `k` on. -/
def Gram.text (ram : Gram) (k : Nat) (chars : List UInt8) : Gram := fun x page =>
  if x < 128 ∧ page < 8 ∧ k ≤ cellOf x page ∧ cellOf x page < k + chars.length then
    glyph font (chars.getD (cellOf x page - k) 0) x page
  else ram x page

variable {font} {σ : Type u} {c : Controller σ}

theorem text_nil (ram : Gram) (k : Nat) : Gram.text font ram k [] = ram := by
  funext x page
  rw [Gram.text, List.length_nil, if_neg (by omega)]

theorem text_cons (ram : Gram) (k : Nat) (chr : UInt8) (chars : List UInt8) :
    Gram.text font (Gram.text font ram k [chr]) (k + 1) chars =
      Gram.text font ram k (chr :: chars) := by
  funext x page
  simp only [Gram.text, List.length_cons, List.length_nil]
  by_cases hon : x < 128 ∧ page < 8
  · by_cases hk : cellOf x page = k
    · simp [hon, hk]
    · by_cases hrest : k + 1 ≤ cellOf x page ∧ cellOf x page < k + 1 + chars.length
      · have hsub : cellOf x page - k = (cellOf x page - (k + 1)) + 1 := by omega
        rw [if_pos ⟨hon.1, hon.2, hrest⟩, if_pos ⟨hon.1, hon.2, by omega, by omega⟩, hsub,
          List.getD_cons_succ]
      · rw [if_neg fun h => hrest h.2.2, if_neg (by omega), if_neg (by omega)]
  · rw [if_neg fun h => hon ⟨h.1, h.2.1⟩, if_neg fun h => hon ⟨h.1, h.2.1⟩,
      if_neg fun h => hon ⟨h.1, h.2.1⟩]

theorem toNat_cellX (k : Nat) : (cellX k).toNat = 8 * (k % 16) := by
  rw [cellX, UInt8.toNat_ofNat', Nat.mod_eq_of_lt (by omega)]

theorem toNat_cellY {k : Nat} (hk : k < 64) : (cellY k).toNat = 2 * (k / 16) := by
  rw [cellY, UInt8.toNat_ofNat', Nat.mod_eq_of_lt (by omega)]

theorem toNat_cellY_succ {k : Nat} (hk : k < 64) : (cellY k + 1).toNat = 2 * (k / 16) + 1 := by
  simp only [UInt8.toNat_add, toNat_cellY hk, UInt8.reduceToNat]
  omega

theorem getD_map_range (f : Nat → UInt8) {n i : Nat} (hi : i < n) :
    ((List.range n).map f).getD i 0 = f i := by
  rw [List.getD_eq_getElem _ _ (by rwa [List.length_map, List.length_range]), List.getElem_map,
    List.getElem_range]

/-- The points of a cell. -/
theorem cellOf_eq_iff {k : Nat} (hk : k < 64) (x page : UInt8) :
    (x < 128 ∧ page < 8 ∧ k ≤ cellOf x page ∧ cellOf x page < k + 1) ↔
      (page = cellY k ∨ page = cellY k + 1) ∧
        (cellX k).toNat ≤ x.toNat ∧ x.toNat < (cellX k).toNat + 8 := by
  simp only [← UInt8.toNat_inj, toNat_cellX, toNat_cellY hk, toNat_cellY_succ hk,
    UInt8.lt_iff_toNat_lt, UInt8.reduceToNat, cellOf]
  omega

/-- A character is two rows of eight bytes. -/
theorem write_glyph (ram : Gram) {k : Nat} (hk : k < 64) (chr : UInt8) :
    Gram.write
      (Gram.write ram (cellY k) (cellX k)
        ((List.range 8).map fun i => font.byte ((chr - 0x20).toNat * 16 + i)))
      (cellY k + 1) (cellX k)
      ((List.range 8).map fun i => font.byte ((chr - 0x20).toNat * 16 + i + 8)) =
    Gram.text font ram k [chr] := by
  funext x page
  have hX := toNat_cellX k
  have hcell := cellOf_eq_iff hk x page
  simp only [Gram.write, Gram.text, List.length_map, List.length_range, List.length_singleton]
  by_cases hx : (cellX k).toNat ≤ x.toNat ∧ x.toNat < (cellX k).toNat + 8
  · have hi : x.toNat - (cellX k).toNat < 8 := by omega
    have hcolumn : x.toNat % 8 = x.toNat - (cellX k).toNat := by omega
    by_cases hsecond : page = cellY k + 1
    · have hpage : page.toNat % 2 = 1 := by
        rw [hsecond, toNat_cellY_succ hk]
        omega
      have hkey := hcell.mpr ⟨Or.inr hsecond, hx⟩
      have hk' : cellOf x page - k = 0 := by omega
      rw [if_pos ⟨hsecond, hx⟩, if_pos hkey, getD_map_range _ hi, hk', glyph, hcolumn, hpage]
      rfl
    · rw [if_neg fun h => hsecond h.1]
      by_cases hfirst : page = cellY k
      · have hpage : page.toNat % 2 = 0 := by
          rw [hfirst, toNat_cellY hk]
          omega
        have hkey := hcell.mpr ⟨Or.inl hfirst, hx⟩
        have hk' : cellOf x page - k = 0 := by omega
        rw [if_pos ⟨hfirst, hx⟩, if_pos hkey, getD_map_range _ hi, hk', glyph, hcolumn, hpage]
        rfl
      · rw [if_neg fun h => hfirst h.1, if_neg fun h => (hcell.mp h).1.elim hfirst hsecond]
  · rw [if_neg fun h => hx h.2, if_neg fun h => hx h.2, if_neg fun h => hx (hcell.mp h).2]

/-- A row of eight bytes. -/
theorem setPos_data_holds {w : Wire σ} {ram : Gram} (h : c.Holds w ram) {x y : UInt8}
    (hx : x.toNat + 8 ≤ 128) (hy : y < 8) (f : Nat → UInt8) :
    c.Holds (oledData c.device ((List.range 8).map f) (oledSetPos c.device x y w))
      (Gram.write ram y x ((List.range 8).map f)) := by
  obtain ⟨page, column, hw⟩ := h
  have hx' : x < 128 := by
    simp only [UInt8.lt_iff_toNat_lt, UInt8.reduceToNat]
    omega
  obtain ⟨column', hdata⟩ := @oledData_stands _ _ _ _ _ _ (oledSetPos_stands hw hx' hy)
    ((List.range 8).map f) (by rw [List.length_map, List.length_range]; exact hx)
  exact ⟨y, column', hdata⟩

/-! ## The table -/

theorem mapM_some {α β : Type*} {f : α → Option β} {g : α → β} {l : List α}
    (h : ∀ a ∈ l, f a = some (g a)) : l.mapM f = some (l.map g) := by
  induction l with
  | nil => rfl
  | cons a l ih =>
      rw [List.mapM_cons, h a List.mem_cons_self, ih fun b hb => h b (List.mem_cons_of_mem a hb)]
      rfl

theorem Printable.toNat_sub {chr : UInt8} (h : Printable chr) : (chr - 0x20).toNat ≤ 94 := by
  obtain ⟨hle, hle'⟩ := h
  rw [UInt8.toNat_sub_of_le _ _ hle]
  rw [UInt8.le_iff_toNat_le] at hle'
  simp only [UInt8.reduceToNat] at hle' ⊢
  omega

theorem toNat_sub_of_not_printable {chr : UInt8} (h : ¬ Printable chr) :
    95 ≤ (chr - 0x20).toNat := by
  rw [Printable, not_and_or, UInt8.not_le, UInt8.not_le, UInt8.lt_iff_toNat_lt,
    UInt8.lt_iff_toNat_lt] at h
  have hlt := chr.toNat_lt
  rw [UInt8.toNat_sub]
  simp only [UInt8.reduceToNat] at h ⊢
  omega

theorem oledTable_eq (d : Device σ) {first : Nat} (h : first + 8 ≤ 1520) (w : Wire σ) :
    oledTable d font.f8x16.toArray first w =
      some (oledData d ((List.range 8).map fun i => font.byte (first + i)) w) := by
  have hbytes : (List.range 8).mapM (fun i => font.f8x16.toArray[first + i]?) =
      some ((List.range 8).map fun i => font.byte (first + i)) := by
    refine mapM_some fun i hi => ?_
    have hsize : first + i < font.f8x16.toArray.size := by
      rw [font.f8x16.size_toArray]
      exact (Nat.add_lt_add_left (List.mem_range.mp hi) first).trans_le h
    rw [Font.byte, Array.getElem?_eq_getElem hsize]
    rfl
  rw [oledTable, hbytes]
  rfl

theorem oledTable_eq_none (d : Device σ) {first : Nat} (h : 1520 ≤ first) (w : Wire σ) :
    oledTable d font.f8x16.toArray first w = none := by
  have hfirst : font.f8x16.toArray[first + 0]? = none :=
    Array.getElem?_eq_none (by rw [font.f8x16.size_toArray]; exact h)
  rw [oledTable, List.range_succ_eq_map, List.mapM_cons, hfirst]
  rfl

/-- Another character is not. -/
theorem oledShowChar_eq_none (d : Device σ) (x y : UInt8) {chr : UInt8} (h : ¬ Printable chr)
    (w : Wire σ) : oledShowChar d font x y chr 16 w = none := by
  have hle := toNat_sub_of_not_printable h
  rw [oledShowChar]
  simp only [if_true]
  rw [oledTable_eq_none d (by omega)]
  rfl

/-- A character of size 16 goes into its cell. -/
theorem oledShowChar_holds (font : Font) {w : Wire σ} {ram : Gram} (h : c.Holds w ram) {k : Nat}
    (hk : k < 64) {chr : UInt8} (hchr : Printable chr) :
    ∃ w', oledShowChar c.device font (cellX k) (cellY k) chr 16 w = some w' ∧
      c.Holds w' (Gram.text font ram k [chr]) := by
  have hx : (cellX k).toNat + 8 ≤ 128 := by
    rw [toNat_cellX]
    omega
  have hwrap : ¬ cellX k > 128 - 1 := by
    rw [gt_iff_lt, UInt8.lt_iff_toNat_lt, toNat_cellX]
    change ¬ 127 < _
    omega
  have hy : cellY k < 8 ∧ cellY k + 1 < 8 := by
    simp only [UInt8.lt_iff_toNat_lt, toNat_cellY hk, toNat_cellY_succ hk, UInt8.reduceToNat]
    omega
  have hsub := hchr.toNat_sub
  have hswap : ∀ i, (chr - 0x20).toNat * 16 + i + 8 = (chr - 0x20).toNat * 16 + 8 + i :=
    fun i => Nat.add_right_comm _ i 8
  have hglyph := @write_glyph font ram k hk chr
  simp only [hswap] at hglyph
  refine ⟨_, ?_, hglyph ▸ setPos_data_holds (setPos_data_holds h hx hy.1 _) hx hy.2 _⟩
  rw [oledShowChar, if_neg hwrap]
  simp only [if_true]
  rw [oledTable_eq c.device (by omega)]
  exact oledTable_eq c.device (by omega) _

/-! ## Strings -/

/-- After a cell comes the next one, at the start of a line if need be. -/
theorem next_cell {k : Nat} (hk : k < 64) :
    (if cellX k + 8 > 120 then ((0 : UInt8), cellY k + 2) else (cellX k + 8, cellY k)) =
      (cellX (k + 1), cellY (k + 1)) := by
  have hall : ∀ n < 64, (if cellX n + 8 > 120 then ((0 : UInt8), cellY n + 2)
      else (cellX n + 8, cellY n)) = (cellX (n + 1), cellY (n + 1)) := by decide
  exact hall k hk

theorem Printable.ne_zero {chr : UInt8} (h : Printable chr) : chr ≠ 0 := by
  rintro rfl
  exact absurd h (by decide)

/-- The loop goes on with the character `i`, and `n` of them are left. -/
theorem oledShowString_drop {chars : List UInt8} (hchars : ∀ chr ∈ chars, Printable chr) {k : Nat}
    (hfits : k + chars.length ≤ 64) {i n : Nat} (hi : i + n = chars.length) {w : Wire σ}
    {ram : Gram} (h : c.Holds w ram) :
    ∃ w', c.Holds w' (Gram.text font ram (k + i) (chars.drop i)) ∧ ∀ fuel, n < fuel →
      oledShowString c.device font 16 chars fuel (UInt8.ofNat i) (cellX (k + i)) (cellY (k + i))
        w = some (some w') := by
  have hj : (UInt8.ofNat i).toNat = i := by
    rw [UInt8.toNat_ofNat', Nat.mod_eq_of_lt (by omega)]
  induction n generalizing i w ram with
  | zero =>
      rw [List.drop_of_length_le (by omega), text_nil]
      refine ⟨w, h, fun fuel hfuel => ?_⟩
      obtain ⟨fuel, rfl⟩ := Nat.exists_eq_succ_of_ne_zero (Nat.ne_of_gt hfuel)
      rw [oledShowString, hj, List.getD_eq_default _ _ (by omega), if_pos rfl]
  | succ n ih =>
      have hlt : i < chars.length := by omega
      have hchar : chars.getD i 0 = chars[i] := List.getD_eq_getElem _ _ hlt
      have hprintable := hchars _ (List.getElem_mem hlt)
      obtain ⟨w₁, hshow, hshown⟩ := oledShowChar_holds font h (by omega : k + i < 64) hprintable
      obtain ⟨w', hw', hrest⟩ := ih (i := i + 1) (by omega) hshown
        (by rw [UInt8.toNat_ofNat', Nat.mod_eq_of_lt (by omega)])
      refine ⟨w', ?_, fun fuel hfuel => ?_⟩
      · rw [List.drop_eq_getElem_cons hlt, ← text_cons]
        exact hw'
      · obtain ⟨fuel, rfl⟩ := Nat.exists_eq_succ_of_ne_zero (Nat.ne_of_gt (Nat.zero_lt_of_lt hfuel))
        rw [oledShowString, hj, hchar, if_neg hprintable.ne_zero, hshow, ← hrest fuel (by omega)]
        dsimp only
        rw [next_cell (by omega), UInt8.ofNat_add]
        rfl

/-- A character outside of the table is reached, after `i` characters or later. -/
theorem oledShowString_outside {chars : List UInt8} (hne : ∀ chr ∈ chars, chr ≠ 0) {k : Nat}
    (hfits : k + chars.length ≤ 64) {i n : Nat} (hi : i + n = chars.length)
    (houtside : ∃ chr ∈ chars.drop i, ¬ Printable chr) {w : Wire σ} {ram : Gram}
    (h : c.Holds w ram) : ∀ fuel, n ≤ fuel →
      oledShowString c.device font 16 chars fuel (UInt8.ofNat i) (cellX (k + i)) (cellY (k + i))
        w = some none := by
  have hj : (UInt8.ofNat i).toNat = i := by
    rw [UInt8.toNat_ofNat', Nat.mod_eq_of_lt (by omega)]
  induction n generalizing i w ram with
  | zero =>
      obtain ⟨chr, hmem, -⟩ := houtside
      rw [List.drop_of_length_le (by omega)] at hmem
      cases hmem
  | succ n ih =>
      intro fuel hfuel
      obtain ⟨fuel, rfl⟩ := Nat.exists_eq_succ_of_ne_zero (Nat.ne_of_gt (Nat.zero_lt_of_lt hfuel))
      have hlt : i < chars.length := by omega
      have hchar : chars.getD i 0 = chars[i] := List.getD_eq_getElem _ _ hlt
      rw [oledShowString, hj, hchar, if_neg (hne _ (List.getElem_mem hlt))]
      by_cases hprintable : Printable chars[i]
      · obtain ⟨w₁, hshow, hshown⟩ := oledShowChar_holds font h (by omega : k + i < 64) hprintable
        have hrest : ∃ chr ∈ chars.drop (i + 1), ¬ Printable chr := by
          obtain ⟨chr, hmem, hchr⟩ := houtside
          rw [List.drop_eq_getElem_cons hlt] at hmem
          rcases List.mem_cons.mp hmem with rfl | hrest
          · exact absurd hprintable hchr
          · exact ⟨chr, hrest, hchr⟩
        have hgoes := ih (i := i + 1) (by omega) hrest hshown
          (by rw [UInt8.toNat_ofNat', Nat.mod_eq_of_lt (by omega)]) fuel (by omega)
        rw [hshow, ← hgoes]
        dsimp only
        rw [next_cell (by omega), UInt8.ofNat_add]
        rfl
      · rw [oledShowChar_eq_none c.device _ _ hprintable]

/-- A string that fits on the screen, from a cell on.  If the table has its characters, they go into
the cells from there, and nothing else on the panel changes.  If it does not have one of them, the
firmware reads outside of the table. -/
theorem oledShowString_shows {chars : List UInt8} (hne : ∀ chr ∈ chars, chr ≠ 0) {k : Nat}
    (hfits : k + chars.length ≤ 64) {w : Wire σ} {ram : Gram} (h : c.Holds w ram) :
    ((∀ chr ∈ chars, Printable chr) →
      ∃ w', c.Holds w' (Gram.text font ram k chars) ∧ ∀ fuel, chars.length < fuel →
        oledShowString c.device font 16 chars fuel 0 (cellX k) (cellY k) w = some (some w')) ∧
    ((∃ chr ∈ chars, ¬ Printable chr) → ∀ fuel, chars.length ≤ fuel →
      oledShowString c.device font 16 chars fuel 0 (cellX k) (cellY k) w = some none) := by
  constructor
  · intro hchars
    exact oledShowString_drop hchars hfits (Nat.zero_add chars.length) h
  · intro hchars
    exact oledShowString_outside hne hfits (Nat.zero_add chars.length) hchars h

/-- Two characters, at the end of a line and at the start of the next. -/
theorem oledShowString_shows_two :
    ∃ w', ssd1306.Holds w' (Gram.text emptyFont (fun _ _ => 0) 15 [65, 66]) ∧
      ∀ fuel, 2 < fuel →
        oledShowString ssd1306.device emptyFont 16 [65, 66] fuel 0 (cellX 15) (cellY 15)
          (Wire.init .reset) = some (some w') := by
  have hchars : ∀ chr ∈ [(65 : UInt8), 66], Printable chr := by
    rw [List.forall_mem_cons, List.forall_mem_singleton]
    decide
  have hne : ∀ chr ∈ [(65 : UInt8), 66], chr ≠ 0 := fun chr hchr => (hchars chr hchr).ne_zero
  have hfits : 15 + [(65 : UInt8), 66].length ≤ 64 := by decide
  exact (oledShowString_shows hne hfits reset_holds).1 hchars

/-- The byte that counts the characters goes round in a longer string. -/
theorem oledShowString_ne_some (d : Device σ) {chars : List UInt8} (hne : ∀ chr ∈ chars, chr ≠ 0)
    (hlen : 256 ≤ chars.length) (charSize : UInt8) (fuel : Nat) (j x y : UInt8) (w w' : Wire σ) :
    oledShowString d font charSize chars fuel j x y w ≠ some (some w') := by
  induction fuel generalizing j x y w with
  | zero => exact Option.some_ne_none _ |>.symm
  | succ fuel ih =>
      have hj : j.toNat < chars.length := lt_of_lt_of_le j.toNat_lt hlen
      have hchar : chars.getD j.toNat 0 ≠ 0 := by
        rw [List.getD_eq_getElem _ _ hj]
        exact hne _ (List.getElem_mem hj)
      rw [oledShowString, if_neg hchar]
      cases oledShowChar d font x y (chars.getD j.toNat 0) charSize w with
      | none =>
          intro h
          cases h
      | some w₁ => exact ih _ _ _ w₁

/-! ## Numbers -/

/-- The digits of a number, with blanks for the zeros in front of it. -/
def blanked : Bool → List UInt8 → List UInt8
  | _, [] => []
  | _, [digit] => [digit]
  | enshow, digit :: digits =>
      if !enshow ∧ digit = 0x30 then 0x20 :: blanked enshow digits
      else digit :: blanked true digits

/-- The text of a number, on the right of `len` characters. -/
def numText (len n : Nat) : List UInt8 :=
  let digits := Decimal.digits (n % 10 ^ len)
  List.replicate (len - digits.length) 0x20 ++ digits

theorem blanked_cons {digits : List UInt8} (h : digits ≠ []) (enshow : Bool) (digit : UInt8) :
    blanked enshow (digit :: digits) =
      if !enshow ∧ digit = 0x30 then 0x20 :: blanked enshow digits
      else digit :: blanked true digits := by
  rw [blanked]
  exact h

theorem blanked_true (digits : List UInt8) : blanked true digits = digits := by
  induction digits with
  | nil => rfl
  | cons digit digits ih =>
      cases digits with
      | nil => rfl
      | cons digit' digits =>
          rw [blanked_cons (List.cons_ne_nil _ _), if_neg fun h => Bool.false_ne_true h.1, ih]

theorem padded_mod {p q : Nat} (h : p ≤ q) (n : Nat) :
    Decimal.padded p (n % 10 ^ q) = Decimal.padded p n := by
  induction p with
  | zero => rfl
  | succ p ih =>
      have hdvd : 10 ^ (p + 1) ∣ 10 ^ q := Nat.pow_dvd_pow 10 h
      have hdigit : n % 10 ^ q / 10 ^ p % 10 = n / 10 ^ p % 10 := by
        rw [← Nat.mod_mul_right_div_self, ← pow_succ, Nat.mod_mod_of_dvd _ hdvd, pow_succ,
          Nat.mod_mul_right_div_self]
      rw [Decimal.padded, Decimal.padded, hdigit, ih (Nat.le_of_succ_le h)]

theorem digitByte_eq_zero_iff {d : Nat} (hd : d < 10) : Decimal.digitByte d = 0x30 ↔ d = 0 := by
  interval_cases d
  all_goals decide

/-- A zero in front of a number is a blank in front of its text. -/
theorem numText_of_zero {p n : Nat} (h : n / 10 ^ (p + 1) % 10 = 0) :
    numText (p + 2) n = 0x20 :: numText (p + 1) n := by
  have hmod : n % 10 ^ (p + 2) = n % 10 ^ (p + 1) := by
    rw [pow_succ 10 (p + 1), Nat.mod_mul, h, Nat.mul_zero, Nat.add_zero]
  have hlen : (Decimal.digits (n % 10 ^ (p + 1))).length ≤ p + 1 := by
    rw [Decimal.length_digits]
    exact Nat.log_lt_of_lt_pow' (Nat.succ_ne_zero p) (Nat.mod_lt _ (Nat.pow_pos (by decide)))
  rw [numText, numText, hmod, Nat.succ_sub hlen, List.replicate_succ, List.cons_append]

/-- A number with all its digits. -/
theorem numText_of_ne_zero {p n : Nat} (h : n / 10 ^ (p + 1) % 10 ≠ 0) :
    numText (p + 2) n = Decimal.padded (p + 2) n := by
  have hmod : n % 10 ^ (p + 2) =
      n % 10 ^ (p + 1) + 10 ^ (p + 1) * (n / 10 ^ (p + 1) % 10) := by
    rw [pow_succ 10 (p + 1), Nat.mod_mul]
  have hle : 10 ^ (p + 1) ≤ n % 10 ^ (p + 2) := by
    rw [hmod]
    exact le_add_left (Nat.le_mul_of_pos_right _ (Nat.pos_of_ne_zero h))
  have hlog : Nat.log 10 (n % 10 ^ (p + 2)) = p + 1 :=
    Nat.log_eq_of_pow_le_of_lt_pow hle (Nat.mod_lt _ (Nat.pow_pos (by decide)))
  rw [numText, Decimal.digits, hlog, padded_mod (Nat.le_refl _), Decimal.length_padded,
    Nat.sub_self]
  rfl

/-- The zeros in front of a number become blanks. -/
theorem blanked_padded (p n : Nat) :
    blanked false (Decimal.padded (p + 1) n) = numText (p + 1) n := by
  induction p with
  | zero =>
      have hlog : Nat.log 10 (n % 10 ^ 1) = 0 :=
        Nat.log_eq_zero_iff.mpr (Or.inl (Nat.mod_lt _ (by decide)))
      rw [numText, Decimal.digits, hlog, padded_mod (Nat.le_refl 1), Decimal.length_padded]
      rfl
  | succ p ih =>
      have hdigit := digitByte_eq_zero_iff (Nat.mod_lt (n / 10 ^ (p + 1)) (by decide : 0 < 10))
      have hrest : Decimal.padded (p + 1) n ≠ [] := List.cons_ne_nil _ _
      rw [Decimal.padded, blanked_cons hrest]
      by_cases hzero : n / 10 ^ (p + 1) % 10 = 0
      · rw [if_pos ⟨rfl, hdigit.mpr hzero⟩, ih, numText_of_zero hzero]
      · rw [if_neg fun h => hzero (hdigit.mp h.2), blanked_true, numText_of_ne_zero hzero]
        rfl

/-! ## The loop over the digits -/

theorem toNat_oledPow {n : Nat} (hn : n ≤ 9) : (oledPow 10 n).toNat = 10 ^ n := by
  interval_cases n
  all_goals rfl

/-- The character of a digit. -/
theorem digit_eq (num : UInt32) {p : Nat} (hp : p ≤ 9) :
    (num / oledPow 10 p % 10).toUInt8 + 0x30 = Decimal.digitByte (num.toNat / 10 ^ p % 10) := by
  apply UInt8.toNat_inj.mp
  rw [UInt8.toNat_add, UInt32.toNat_toUInt8, UInt32.toNat_mod, UInt32.toNat_div, toNat_oledPow hp,
    Decimal.digitByte, UInt8.toNat_ofNat']
  simp only [UInt32.reduceToNat, UInt8.reduceToNat]
  omega

theorem add_eq_zero_char {temp : UInt8} : temp + 0x30 = 0x30 ↔ temp = 0 := by
  rw [← UInt8.toNat_inj, ← UInt8.toNat_inj, UInt8.toNat_add]
  simp only [UInt8.reduceToNat]
  have htemp := temp.toNat_lt
  omega

/-- The cells of a line. -/
theorem cell_add {k t : Nat} (hline : k % 16 + t < 16) :
    cellX k + 16 / 2 * UInt8.ofNat t = cellX (k + t) ∧ cellY k = cellY (k + t) := by
  have h8 : (16 / 2 : UInt8) = 8 := rfl
  have hmod : (k + t) % 16 = k % 16 + t := by omega
  have hdiv : (k + t) / 16 = k / 16 := by omega
  refine ⟨?_, by rw [cellY, cellY, hdiv]⟩
  rw [h8, ← UInt8.toNat_inj, UInt8.toNat_add, UInt8.toNat_mul, toNat_cellX, toNat_cellX,
    UInt8.toNat_ofNat', hmod]
  simp only [UInt8.reduceToNat]
  omega

theorem digit_printable (n : Nat) : Printable (Decimal.digitByte (n % 10)) := by
  have hall : ∀ d < 10, Printable (Decimal.digitByte d) := by decide
  exact hall _ (Nat.mod_lt n (by decide))

/-- The loop goes on with the digit `t`, and `n` of them are left. -/
theorem oledShowNum_from {k : Nat} (hk : k < 64) (num : UInt32) {len : UInt8} (hlen : len ≤ 10)
    (hline : k % 16 + len.toNat ≤ 16) {t n : Nat} (ht : t + n = len.toNat) (enshow : Bool)
    {w : Wire σ} {ram : Gram} (h : c.Holds w ram) :
    ∃ w', oledShowNum c.device font (cellX k) (cellY k) num len 16 t enshow w = some w' ∧
      c.Holds w' (Gram.text font ram (k + t) (blanked enshow (Decimal.padded n num.toNat))) := by
  have hlen' : len.toNat ≤ 10 := UInt8.le_iff_toNat_le.mp hlen
  induction n generalizing t enshow w ram with
  | zero =>
      rw [oledShowNum, if_neg (by omega), Decimal.padded, blanked, text_nil]
      exact ⟨w, rfl, h⟩
  | succ n ih =>
      have hp : len.toNat - t - 1 = n := by omega
      obtain ⟨hx, hy⟩ := cell_add (k := k) (t := t) (by omega)
      have hdigit := digit_eq num (p := n) (by omega)
      have hprintable := digit_printable (num.toNat / 10 ^ n)
      have hrest : ∀ chr enshow', Printable chr → ∃ w',
          (oledShowChar c.device font (cellX (k + t)) (cellY k) chr 16 w).bind
            (oledShowNum c.device font (cellX k) (cellY k) num len 16 (t + 1) enshow') = some w' ∧
          c.Holds w'
            (Gram.text font ram (k + t) (chr :: blanked enshow' (Decimal.padded n num.toNat))) := by
        intro chr enshow' hchr
        obtain ⟨w₁, hshow, hshown⟩ := oledShowChar_holds font h (by omega : k + t < 64) hchr
        obtain ⟨w', hnum, hw'⟩ := @ih (t + 1) (by omega) enshow' _ _ hshown
        refine ⟨w', ?_, ?_⟩
        · rw [hy, hshow, Option.bind_some, ← hy]
          exact hnum
        · rw [← text_cons]
          exact hw'
      rw [← hdigit] at hprintable
      rw [oledShowNum, if_pos (by omega), hp, hx, Decimal.padded, ← hdigit]
      generalize (num / oledPow 10 n % 10).toUInt8 = temp at hprintable ⊢
      dsimp only
      cases n with
      | zero =>
          rw [if_neg fun hlast => absurd hlast.2 (by omega)]
          exact hrest (temp + 0x30) enshow hprintable
      | succ n =>
          have hnil : Decimal.padded (n + 1) num.toNat ≠ [] := List.cons_ne_nil _ _
          rw [blanked_cons hnil]
          cases enshow with
          | true =>
              rw [if_neg fun hhidden => Bool.false_ne_true hhidden.1,
                if_neg fun hhidden => Bool.false_ne_true hhidden.1]
              exact hrest (temp + 0x30) true hprintable
          | false =>
              rw [if_pos ⟨rfl, by omega⟩]
              by_cases hzero : temp = 0
              · rw [if_pos hzero, if_pos ⟨rfl, add_eq_zero_char.mpr hzero⟩]
                exact hrest 0x20 false (by decide)
              · rw [if_neg hzero, if_neg fun hhidden => hzero (add_eq_zero_char.mp hhidden.2)]
                exact hrest (temp + 0x30) true hprintable

/-- A number of up to ten digits, in a line of the screen: the cells show its last `len` digits,
with blanks in front.  They show the number itself if it fits. -/
theorem oledShowNum_shows {k : Nat} (hk : k < 64) (num : UInt32) {len : UInt8} (hpos : 0 < len)
    (hlen : len ≤ 10) (hline : k % 16 + len.toNat ≤ 16) {w : Wire σ} {ram : Gram}
    (h : c.Holds w ram) :
    ∃ w', oledShowNum c.device font (cellX k) (cellY k) num len 16 0 false w = some w' ∧
      c.Holds w' (Gram.text font ram k (numText len.toNat num.toNat)) := by
  obtain ⟨n, hn⟩ := Nat.exists_eq_succ_of_ne_zero (Nat.ne_of_gt (UInt8.lt_iff_toNat_lt.mp hpos))
  obtain ⟨w', hnum, hshown⟩ := @oledShowNum_from font σ c k hk num len hlen hline 0 len.toNat
    (Nat.zero_add _) false w ram h
  rw [hn, blanked_padded] at hshown
  rw [hn]
  exact ⟨w', hnum, hshown⟩

/-- 42 in four cells. -/
theorem oledShowNum_shows_42 :
    ∃ w', oledShowNum ssd1306.device emptyFont (cellX 16) (cellY 16) 42 4 16 0 false
        (Wire.init .reset) = some w' ∧
      ssd1306.Holds w' (Gram.text emptyFont (fun _ _ => 0) 16 (numText 4 42)) :=
  oledShowNum_shows (by decide) 42 (by decide) (by decide) (by decide) reset_holds

example : numText 4 42 = [0x20, 0x20, 0x34, 0x32] := by
  rw [numText, Decimal.digits]
  rfl

end IotEdge.Oled
