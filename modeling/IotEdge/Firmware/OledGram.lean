import IotEdge.Lib.ByteLoop

/-!
# The picture of the OLED

The firmware draws into `OLED_GRAM`, where a byte holds eight pixels of a column.  `lit` is the
picture, as the set of its points.  A point is drawn where it is, if it is on the screen
(`lit_oledDrawPoint`).

A rectangle and a disc are drawn by two loops over bytes.  They end unless a bound reaches the last
byte (`rectLoops_of_not_ends`), and then draw what the names say (`rectLoops_of_ends`), but for one
thing: the loops of a disc start at `y - r` and `x - r` as bytes (`circLoops_of_ends`), which go
round where the disc leaves the screen on the left or at the top (`not_le_of_round`).
-/

namespace IotEdge.Oled

open ByteLoop

/-- `OLED_GRAM`, by column and page. -/
abbrev Gram := UInt8 → UInt8 → UInt8

/-- A bit of a byte. -/
def bit (byte : UInt8) (k : Nat) : Bool := byte.toBitVec.getLsbD k

/-- The point is lit. -/
def lit (g : Gram) (x y : UInt8) : Bool := bit (g x (y / 8)) (7 - y % 8).toNat

/-- The point is on the screen. -/
def OnScreen (x y : UInt8) : Prop := x ≤ 127 ∧ y ≤ 63

instance (x y : UInt8) : Decidable (OnScreen x y) := inferInstanceAs (Decidable (_ ∧ _))

/-! ## Drawing -/

/-- `OLED_DrawPoint`. -/
def oledDrawPoint (x y t : UInt8) (g : Gram) : Gram :=
  if x > 127 ∨ y > 63 then g
  else
    let page := y / 8
    let row := y % 8
    let pointPos := 1 <<< (7 - row)
    let byte := if t ≠ 0 then g x page ||| pointPos else g x page &&& ~~~pointPos
    fun x' page' => if x' = x ∧ page' = page then byte else g x' page'

/-- The loops of `OLED_DrawRect`.  `none` if they have not ended after `fuel` rounds. -/
def rectLoops (fuel : Nat) (x0 y0 x1 y1 : UInt8) (g : Gram) : Option Gram :=
  loop x1.toNat (fun i => loop y1.toNat (fun j g => some (oledDrawPoint i j 1 g)) fuel y0) fuel x0 g

/-- The condition of `OLED_DrawCirc`, on integers. -/
def InDisc (x y r i j : UInt8) : Prop :=
  ((x.toNat : Int) - i.toNat) * ((x.toNat : Int) - i.toNat) +
    ((y.toNat : Int) - j.toNat) * ((y.toNat : Int) - j.toNat) ≤ (r.toNat : Int) * r.toNat

instance (x y r i j : UInt8) : Decidable (InDisc x y r i j) :=
  inferInstanceAs (Decidable (_ ≤ _))

/-- The loops of `OLED_DrawCirc`.  `none` if they have not ended after `fuel` rounds. -/
def circLoops (fuel : Nat) (x y r : UInt8) (g : Gram) : Option Gram :=
  loop (y.toNat + r.toNat)
    (fun j => loop (x.toNat + r.toNat)
      (fun i g => some (if InDisc x y r i j then oledDrawPoint i j 1 g else g)) fuel (x - r))
    fuel (y - r) g

/-! ## Points -/

theorem bit_or (a b : UInt8) (k : Nat) : bit (a ||| b) k = (bit a k || bit b k) := by
  rw [bit, UInt8.toBitVec_or, BitVec.getLsbD_or]
  rfl

theorem bit_and (a b : UInt8) (k : Nat) : bit (a &&& b) k = (bit a k && bit b k) := by
  rw [bit, UInt8.toBitVec_and, BitVec.getLsbD_and]
  rfl

theorem bit_not (a : UInt8) {k : Nat} (hk : k < 8) : bit (~~~a) k = !bit a k := by
  rw [bit, UInt8.toBitVec_not, BitVec.getLsbD_not, decide_eq_true hk, Bool.true_and]
  rfl

/-- One bit is set. -/
theorem bit_pointPos {row k : UInt8} (hrow : row ≤ 7) (hk : k ≤ 7) :
    bit (1 <<< (7 - row)) (7 - k).toNat = decide (k = row) := by
  have hall : ∀ m < 8, ∀ n < 8, bit (1 <<< (7 - UInt8.ofNat m)) (7 - UInt8.ofNat n).toNat =
      decide (UInt8.ofNat n = UInt8.ofNat m) := by decide
  have hrow' : row.toNat < 8 := Nat.lt_succ_of_le (UInt8.le_iff_toNat_le.mp hrow)
  have hk' : k.toNat < 8 := Nat.lt_succ_of_le (UInt8.le_iff_toNat_le.mp hk)
  have h := hall row.toNat hrow' k.toNat hk'
  rwa [UInt8.ofNat_toNat, UInt8.ofNat_toNat] at h

theorem mod_le (y : UInt8) : y % 8 ≤ 7 := by
  rw [UInt8.le_iff_toNat_le, UInt8.toNat_mod]
  exact Nat.le_of_lt_succ (Nat.mod_lt _ (by decide))

/-- The bit of a row is set or cleared, and the others stay. -/
theorem bit_drawn (a t : UInt8) {row k : UInt8} (hrow : row ≤ 7) (hk : k ≤ 7) :
    bit (if t ≠ 0 then a ||| 1 <<< (7 - row) else a &&& ~~~(1 <<< (7 - row))) (7 - k).toNat =
      if k = row then decide (t ≠ 0) else bit a (7 - k).toNat := by
  have hlt : (7 - k).toNat < 8 := by
    rw [UInt8.toNat_sub_of_le _ _ hk]
    exact Nat.lt_succ_of_le (Nat.sub_le _ _)
  by_cases ht : t ≠ 0
  · rw [if_pos ht, bit_or, bit_pointPos hrow hk, decide_eq_true ht]
    split
    next heq => rw [decide_eq_true heq, Bool.or_true]
    next hne => rw [decide_eq_false hne, Bool.or_false]
  · rw [if_neg ht, bit_and, bit_not _ hlt, bit_pointPos hrow hk, decide_eq_false ht]
    split
    next heq => rw [decide_eq_true heq, Bool.not_true, Bool.and_false]
    next hne => rw [decide_eq_false hne, Bool.not_false, Bool.and_true]

/-- A row is its page and its place in the page. -/
theorem row_eq_iff {y y' : UInt8} (hpage : y' / 8 = y / 8) : y' % 8 = y % 8 ↔ y' = y := by
  constructor
  · intro hrow
    have hpage' := congrArg UInt8.toNat hpage
    have hrow' := congrArg UInt8.toNat hrow
    rw [UInt8.toNat_div, UInt8.toNat_div] at hpage'
    rw [UInt8.toNat_mod, UInt8.toNat_mod] at hrow'
    have h8 : (8 : UInt8).toNat = 8 := rfl
    rw [h8] at hpage' hrow'
    exact UInt8.toNat_inj.mp (by omega)
  · rintro rfl
    rfl

theorem onScreen_iff {x y : UInt8} : OnScreen x y ↔ ¬ (x > 127 ∨ y > 63) := by
  rw [not_or, OnScreen, gt_iff_lt, gt_iff_lt, UInt8.not_lt, UInt8.not_lt]

/-- A point is drawn where it is, if it is on the screen. -/
theorem lit_oledDrawPoint (g : Gram) (x y t x' y' : UInt8) :
    lit (oledDrawPoint x y t g) x' y' =
      if (x' = x ∧ y' = y) ∧ OnScreen x y then decide (t ≠ 0) else lit g x' y' := by
  rw [oledDrawPoint]
  by_cases hscreen : x > 127 ∨ y > 63
  · rw [if_pos hscreen, if_neg fun h => onScreen_iff.mp h.2 hscreen]
  have hon : OnScreen x y := onScreen_iff.mpr hscreen
  rw [if_neg hscreen, lit]
  by_cases hbyte : x' = x ∧ y' / 8 = y / 8
  · obtain ⟨rfl, hpage⟩ := hbyte
    rw [if_pos ⟨rfl, hpage⟩, bit_drawn _ t (mod_le y) (mod_le y'), lit, hpage]
    simp only [row_eq_iff hpage, true_and, hon, and_true]
  · rw [if_neg hbyte, if_neg fun h => hbyte ⟨h.1.1, by rw [h.1.2]⟩]
    rfl

/-! ## Loops -/

/-- A point that is lit stays lit, and a drawn one is lit. -/
theorem lit_draw_iff (g : Gram) (x y x' y' : UInt8) :
    lit (oledDrawPoint x y 1 g) x' y' = true ↔
      lit g x' y' = true ∨ ((x' = x ∧ y' = y) ∧ OnScreen x y) := by
  rw [lit_oledDrawPoint]
  split
  next h => simp [h]
  next h => simp [h]

/-- A row or a column of points is drawn, where `C` holds. -/
theorem lit_foldl_iff (l : List UInt8) (point : UInt8 → UInt8 × UInt8) (C : UInt8 → Prop)
    [DecidablePred C] (g : Gram) (x y : UInt8) :
    lit (l.foldl (fun g i => if C i then oledDrawPoint (point i).1 (point i).2 1 g else g) g) x y =
        true ↔
      lit g x y = true ∨
        ∃ i ∈ l, C i ∧ (x = (point i).1 ∧ y = (point i).2) ∧ OnScreen (point i).1 (point i).2 := by
  refine foldl_iff (P := fun g => lit g x y = true) (fun g i => ?_) l g
  split
  next hC => rw [lit_draw_iff, and_iff_right hC]
  next hC => rw [iff_self_or]; exact fun h => absurd h.1 hC

/-- A box of points is drawn, where `C` holds. -/
theorem lit_box_iff (outer inner : List UInt8) (point : UInt8 → UInt8 → UInt8 × UInt8)
    (C : UInt8 → UInt8 → Prop) [∀ i, DecidablePred (C i)] (g : Gram) (x y : UInt8) :
    lit (outer.foldl (fun g i => inner.foldl (fun g j =>
        if C i j then oledDrawPoint (point i j).1 (point i j).2 1 g else g) g) g) x y = true ↔
      lit g x y = true ∨ ∃ i ∈ outer, ∃ j ∈ inner,
        C i j ∧ (x = (point i j).1 ∧ y = (point i j).2) ∧ OnScreen (point i j).1 (point i j).2 :=
  foldl_iff (P := fun g => lit g x y = true)
    (fun g i => lit_foldl_iff inner (point i) (C i) g x y) outer g

/-- Two loops over bytes draw a box. -/
theorem loops_eq_foldl {outerLast innerLast : Nat} (houter : outerLast < 255)
    (hinner : innerLast < 255) (f : UInt8 → UInt8 → Gram → Gram) {fuel : Nat} (hfuel : 257 ≤ fuel)
    (i j : UInt8) (g : Gram) :
    loop outerLast (fun i => loop innerLast (fun j g => some (f i j g)) fuel j) fuel i g =
      some ((bytes i outerLast).foldl
        (fun g i => (bytes j innerLast).foldl (fun g j => f i j g) g) g) :=
  loop_eq_foldl houter
    (fun i g => loop_eq_foldl (f := f i) hinner (fun _ _ => rfl) ⟨by omega, by omega⟩ g)
    ⟨by omega, by omega⟩ g

/-- The outer loop has nothing to do. -/
theorem loop_of_lt {last : Nat} {body : UInt8 → Gram → Option Gram} {i : UInt8}
    (h : last < i.toNat) {fuel : Nat} (hfuel : 257 ≤ fuel) (g : Gram) :
    loop last body fuel i g = some g := by
  obtain ⟨fuel, rfl⟩ : ∃ n, fuel = n + 1 := ⟨fuel - 1, by omega⟩
  rw [loop, if_neg (by omega)]

/-- No bound of the loops is the last byte, or the outer loop has nothing to do. -/
def RectEnds (x0 x1 y1 : UInt8) : Prop := x1 < 255 ∧ (y1 < 255 ∨ x1 < x0)

instance (x0 x1 y1 : UInt8) : Decidable (RectEnds x0 x1 y1) :=
  inferInstanceAs (Decidable (_ ∧ _))

/-- The loops of a rectangle that end light its points on the screen. -/
theorem rectLoops_of_ends {x0 x1 y1 : UInt8} (h : RectEnds x0 x1 y1) (y0 : UInt8) (g : Gram) :
    ∃ g', (∀ fuel, 257 ≤ fuel → rectLoops fuel x0 y0 x1 y1 g = some g') ∧
      ∀ x y, lit g' x y = true ↔ lit g x y = true ∨
        ((x0 ≤ x ∧ x ≤ x1) ∧ y0 ≤ y ∧ y ≤ y1) ∧ OnScreen x y := by
  simp only [RectEnds, UInt8.lt_iff_toNat_lt, UInt8.reduceToNat] at h
  simp only [UInt8.le_iff_toNat_le]
  obtain ⟨hx1, hy1 | hlt⟩ := h
  · refine ⟨_, fun fuel hfuel => loops_eq_foldl hx1 hy1 (fun i j => oledDrawPoint i j 1) hfuel
      x0 y0 g, fun x y => ?_⟩
    refine (lit_box_iff (bytes x0 x1.toNat) (bytes y0 y1.toNat) Prod.mk (fun _ _ => True)
      g x y).trans ?_
    simp only [mem_bytes hx1, mem_bytes hy1, true_and]
    constructor
    · rintro (h | ⟨i, hi, j, hj, ⟨rfl, rfl⟩, hon⟩)
      · exact Or.inl h
      · exact Or.inr ⟨⟨hi, hj⟩, hon⟩
    · rintro (h | ⟨⟨hx, hy⟩, hon⟩)
      · exact Or.inl h
      · exact Or.inr ⟨x, hx, y, hy, ⟨rfl, rfl⟩, hon⟩
  · refine ⟨g, fun fuel hfuel => loop_of_lt hlt hfuel g, fun x y => ?_⟩
    rw [iff_self_or]
    rintro ⟨⟨hx, -⟩, -⟩
    omega

/-- The other loops never end. -/
theorem rectLoops_of_not_ends {x0 x1 y1 : UInt8} (h : ¬ RectEnds x0 x1 y1) (y0 : UInt8) (g : Gram)
    (fuel : Nat) : rectLoops fuel x0 y0 x1 y1 g = none := by
  simp only [RectEnds, UInt8.lt_iff_toNat_lt, UInt8.reduceToNat] at h
  by_cases hlast : 255 ≤ x1.toNat
  · exact loop_eq_none hlast _ _ _ _
  · have hy : 255 ≤ y1.toNat := by omega
    have hx : x0.toNat ≤ x1.toNat := by omega
    refine loop_eq_none_of_body hx ?_ fuel
    exact loop_eq_none hy _ fuel y0 g

/-- A byte that goes round is beyond the disc. -/
theorem not_le_of_round {x r i : UInt8} (hr : r < 128) (h : x < r)
    (hi : i.toNat ≤ x.toNat + r.toNat) : ¬ x - r ≤ i := by
  simp only [UInt8.lt_iff_toNat_lt, UInt8.reduceToNat] at hr h
  rw [UInt8.le_iff_toNat_le, UInt8.toNat_sub]
  omega

/-- The points of the disc are not farther away than the radius. -/
theorem InDisc.bounds {x y r i j : UInt8} (h : InDisc x y r i j) :
    (x.toNat ≤ i.toNat + r.toNat ∧ i.toNat ≤ x.toNat + r.toNat) ∧
      y.toNat ≤ j.toNat + r.toNat ∧ j.toNat ≤ y.toNat + r.toNat := by
  rw [InDisc] at h
  have hi : |(i.toNat : Int) - x.toNat| ≤ r.toNat := abs_le_of_sq_le_sq
    (by nlinarith [mul_self_nonneg ((y.toNat : Int) - j.toNat)]) (by omega)
  have hj : |(j.toNat : Int) - y.toNat| ≤ r.toNat := abs_le_of_sq_le_sq
    (by nlinarith [mul_self_nonneg ((x.toNat : Int) - i.toNat)]) (by omega)
  rw [abs_le] at hi hj
  omega

/-- No bound of the loops reaches the last byte, or the outer loop has nothing to do. -/
def CircEnds (x y r : UInt8) : Prop :=
  y.toNat + r.toNat < 255 ∧ (x.toNat + r.toNat < 255 ∨ y < r ∧ r < 128)

instance (x y r : UInt8) : Decidable (CircEnds x y r) := inferInstanceAs (Decidable (_ ∧ _))

/-- The loops of a disc that end light its points on the screen that are not before the bytes where
the loops start. -/
theorem circLoops_of_ends {x y r : UInt8} (h : CircEnds x y r) (g : Gram) :
    ∃ g', (∀ fuel, 257 ≤ fuel → circLoops fuel x y r g = some g') ∧
      ∀ i j, lit g' i j = true ↔ lit g i j = true ∨
        (InDisc x y r i j ∧ x - r ≤ i ∧ y - r ≤ j) ∧ OnScreen i j := by
  obtain ⟨hy, hx | ⟨hround, hr⟩⟩ := h
  · refine ⟨_, fun fuel hfuel => loops_eq_foldl hy hx
      (fun j i g => if InDisc x y r i j then oledDrawPoint i j 1 g else g) hfuel _ _ g,
      fun i j => ?_⟩
    refine (lit_box_iff (bytes (y - r) (y.toNat + r.toNat)) (bytes (x - r) (x.toNat + r.toNat))
      (fun j i => (i, j)) (fun j i => InDisc x y r i j) g i j).trans ?_
    simp only [mem_bytes hx, mem_bytes hy, ← UInt8.le_iff_toNat_le]
    constructor
    · rintro (h | ⟨j, hj, i, hi, hdisc, ⟨rfl, rfl⟩, hon⟩)
      · exact Or.inl h
      · exact Or.inr ⟨⟨hdisc, hi.1, hj.1⟩, hon⟩
    · rintro (h | ⟨⟨hdisc, hi, hj⟩, hon⟩)
      · exact Or.inl h
      · exact Or.inr ⟨j, ⟨hj, hdisc.bounds.2.2⟩, i, ⟨hi, hdisc.bounds.1.2⟩, hdisc,
          ⟨rfl, rfl⟩, hon⟩
  · have hlt : y.toNat + r.toNat < (y - r).toNat := by
      simp only [UInt8.lt_iff_toNat_lt, UInt8.reduceToNat] at hround hr
      rw [UInt8.toNat_sub]
      omega
    refine ⟨g, fun fuel hfuel => loop_of_lt hlt hfuel g, fun i j => ?_⟩
    rw [iff_self_or]
    rintro ⟨⟨hdisc, -, hj⟩, -⟩
    exact absurd hj (not_le_of_round hr hround hdisc.bounds.2.2)

/-- The other loops never end. -/
theorem circLoops_of_not_ends {x y r : UInt8} (h : ¬ CircEnds x y r) (g : Gram) (fuel : Nat) :
    circLoops fuel x y r g = none := by
  simp only [CircEnds, UInt8.lt_iff_toNat_lt, UInt8.reduceToNat] at h
  by_cases hlast : 255 ≤ y.toNat + r.toNat
  · exact loop_eq_none hlast _ _ _ _
  · have hx : 255 ≤ x.toNat + r.toNat := by omega
    have hstart : (y - r).toNat ≤ y.toNat + r.toNat := by
      have hy := y.toNat_lt
      have hr := r.toNat_lt
      rw [UInt8.toNat_sub]
      omega
    refine loop_eq_none_of_body hstart ?_ fuel
    exact loop_eq_none hx _ fuel _ g

end IotEdge.Oled
