import IotEdge.Firmware.OledPanel

/-!
# Drawings on the OLED

A drawing goes into `OLED_GRAM`, and from there over the lines into the memory of the controller.
`Picture` is what the firmware draws and what the panel shows, as two sets of points.
`drawings_refine` is for any drawings one after the other: they all end just when each of them
meets a condition on its own arguments, and then the screen is the picture.

`oledDrawCirc_all_or_none` is about `OLED_GRAM` alone, with whatever device on the lines.
-/

namespace IotEdge.Oled

open TwoWire
open IicBus (Wire)

universe u

/-! ## The routines -/

/-- `OLED_GRAM`, and the lines to the panel. -/
structure Screen (σ : Type u) where
  gram : Gram
  wire : Wire σ

section

variable {σ : Type u} (d : Device σ)

/-- `OLED_DrawRect`. -/
def oledDrawRect (fuel : Nat) (x0 y0 x1 y1 : UInt8) (s : Screen σ) : Option (Screen σ) :=
  (rectLoops fuel x0 y0 x1 y1 s.gram).map fun g => ⟨g, oledRefreshGram d g s.wire⟩

/-- `OLED_DrawCirc`. -/
def oledDrawCirc (fuel : Nat) (x y r : UInt8) (s : Screen σ) : Option (Screen σ) :=
  (circLoops fuel x y r s.gram).map fun g => ⟨g, oledRefreshGram d g s.wire⟩

end

/-- A call for a drawing. -/
inductive Drawing where
  | point (x y t : UInt8)
  | rect (x0 y0 x1 y1 : UInt8)
  | circ (x y r : UInt8)
  | refresh
  | clear
  | on
  | fill (byte : UInt8)
  | picture (table : Vector UInt8 1024)
  deriving DecidableEq, Repr

namespace Drawing

/-- A drawing on the screen.  `none` if it has not ended after `fuel` rounds. -/
def run {σ : Type u} (d : Device σ) (fuel : Nat) (s : Screen σ) : Drawing → Option (Screen σ)
  | point x y t => some { s with gram := oledDrawPoint x y t s.gram }
  | rect x0 y0 x1 y1 => oledDrawRect d fuel x0 y0 x1 y1 s
  | circ x y r => oledDrawCirc d fuel x y r s
  | refresh => some { s with wire := oledRefreshGram d s.gram s.wire }
  | clear => some { s with wire := oledClear d s.wire }
  | on => some { s with wire := oledOn d s.wire }
  | fill byte => some { s with wire := fillPicture d byte s.wire }
  | picture table => some { s with wire := picture1 d table s.wire }

/-- The drawing ends. -/
def Ends : Drawing → Prop
  | rect x0 _ x1 y1 => RectEnds x0 x1 y1
  | circ x y r => CircEnds x y r
  | _ => True

instance : DecidablePred Ends
  | point _ _ _ | refresh | clear | on | fill _ | picture _ => isTrue trivial
  | rect x0 _ x1 y1 => inferInstanceAs (Decidable (RectEnds x0 x1 y1))
  | circ x y r => inferInstanceAs (Decidable (CircEnds x y r))

/-- The points that the drawing is for. -/
def points : Drawing → Set (UInt8 × UInt8)
  | point x y _ => {(x, y)}
  | rect x0 y0 x1 y1 => {p | (x0 ≤ p.1 ∧ p.1 ≤ x1) ∧ y0 ≤ p.2 ∧ p.2 ≤ y1}
  | circ x y r => {p | InDisc x y r p.1 p.2 ∧ x - r ≤ p.1 ∧ y - r ≤ p.2}
  | _ => ∅

end Drawing

/-! ## Pictures -/

/-- What is drawn, and what the panel shows. -/
structure Picture where
  drawn : Set (UInt8 × UInt8)
  shown : Set (UInt8 × UInt8)

namespace Picture

/-- A drawing on sets of points. -/
def draw (p : Picture) : Drawing → Picture
  | .point x y t => { p with drawn := if t ≠ 0 then insert (x, y) p.drawn else p.drawn \ {(x, y)} }
  | .refresh => { p with shown := p.drawn }
  | .clear => { p with shown := ∅ }
  | .on => { p with shown := {q | q.2 % 8 = 7} }
  | .fill byte => { p with shown := {q | bit byte (7 - q.2 % 8).toNat} }
  | .picture table => { p with shown := {q | lit (pictureGram table) q.1 q.2} }
  | drawing => ⟨p.drawn ∪ drawing.points, p.drawn ∪ drawing.points⟩

end Picture

variable {σ : Type u} {c : Controller σ}

/-- The screen is the picture. -/
structure Screen.Is (c : Controller σ) (s : Screen σ) (p : Picture) : Prop where
  drawn : ∀ x y, OnScreen x y → (lit s.gram x y = true ↔ (x, y) ∈ p.drawn)
  shown : ∃ ram, c.Holds s.wire ram ∧
    ∀ x y, OnScreen x y → (lit ram x y = true ↔ (x, y) ∈ p.shown)

theorem lit_zero (x y : UInt8) : lit (fun _ _ => 0) x y = false := BitVec.getLsbD_zero

/-- A dark screen. -/
def dark : Screen Ssd1306 := ⟨fun _ _ => 0, Wire.init .reset⟩

theorem dark_is : dark.Is ssd1306 ⟨∅, ∅⟩ := by
  have hdark : ∀ x y, lit (fun _ _ => 0) x y = true ↔ (x, y) ∈ (∅ : Set (UInt8 × UInt8)) :=
    fun x y => iff_of_false (ne_true_of_eq_false (lit_zero x y)) id
  exact ⟨fun x y _ => hdark x y, _, reset_holds, fun x y _ => hdark x y⟩

/-! ## One drawing -/

/-- The page of a point on the screen. -/
theorem OnScreen.page {x y : UInt8} (h : OnScreen x y) : y / 8 < 8 ∧ x < 128 := by
  obtain ⟨hx, hy⟩ := h
  simp only [UInt8.le_iff_toNat_le, UInt8.lt_iff_toNat_lt, UInt8.toNat_div,
    UInt8.reduceToNat] at hx hy ⊢
  omega

/-- The panel shows what was sent. -/
theorem refresh_holds {w : Wire σ} {ram : Gram} (h : c.Holds w ram) (pixels : Gram) :
    ∃ ram', c.Holds (oledPages c.device pixels w) ram' ∧
      ∀ x y, OnScreen x y → lit ram' x y = lit pixels x y := by
  refine ⟨_, oledPages_holds h pixels, fun x y hon => ?_⟩
  have hbyte : (if y / 8 < 8 ∧ x < 128 then pixels x (y / 8) else ram x (y / 8)) =
      pixels x (y / 8) := if_pos hon.page
  exact congrArg (fun byte => bit byte (7 - y % 8).toNat) hbyte

/-- A point is drawn on the set of the points. -/
theorem lit_oledDrawPoint_iff {g : Gram} {drawn : Set (UInt8 × UInt8)} (x y t : UInt8) {i j : UInt8}
    (hon : OnScreen i j) (h : lit g i j = true ↔ (i, j) ∈ drawn) :
    lit (oledDrawPoint x y t g) i j = true ↔
      (i, j) ∈ if t ≠ 0 then insert (x, y) drawn else drawn \ {(x, y)} := by
  rw [lit_oledDrawPoint]
  by_cases hpoint : i = x ∧ j = y
  · obtain ⟨rfl, rfl⟩ := hpoint
    rw [if_pos ⟨⟨rfl, rfl⟩, hon⟩, decide_eq_true_iff]
    split
    next ht => exact iff_of_true ht (Set.mem_insert _ _)
    next ht => exact iff_of_false ht fun hmem => hmem.2 rfl
  · rw [if_neg fun hx => hpoint hx.1, h]
    have hne : (i, j) ≠ (x, y) := fun heq => hpoint (Prod.mk.inj heq)
    split
    next ht => rw [Set.mem_insert_iff, or_iff_right hne]
    next ht => rw [Set.mem_sdiff_singleton, and_iff_left hne]

/-- A byte of 1 is the last row of a page. -/
theorem lit_one_iff {x y : UInt8} : lit (fun _ _ => 1) x y = true ↔ y % 8 = 7 := by
  have hpoint : lit (fun _ _ => 1) x y = decide (y % 8 = 7) :=
    bit_pointPos (by decide : (7 : UInt8) ≤ 7) (mod_le y)
  rw [hpoint]
  exact decide_eq_true_iff

namespace Screen.Is

variable {s : Screen σ} {p : Picture}

/-- A point is drawn, and the panel stays. -/
theorem point (h : s.Is c p) (x y t : UInt8) :
    ({ s with gram := oledDrawPoint x y t s.gram } : Screen σ).Is c (p.draw (.point x y t)) :=
  ⟨fun i j hon => lit_oledDrawPoint_iff x y t hon (h.drawn i j hon), h.shown⟩

/-- The pages are sent, and the panel shows them. -/
theorem pages (h : s.Is c p) (pixels : Gram) {shown : Set (UInt8 × UInt8)}
    (hpixels : ∀ x y, OnScreen x y → (lit pixels x y = true ↔ (x, y) ∈ shown)) :
    ({ s with wire := oledPages c.device pixels s.wire } : Screen σ).Is c ⟨p.drawn, shown⟩ := by
  obtain ⟨ram, hram, -⟩ := h.shown
  obtain ⟨ram', hram', hshows⟩ := refresh_holds hram pixels
  refine ⟨h.drawn, ram', hram', fun x y hon => ?_⟩
  rw [hshows x y hon]
  exact hpixels x y hon

/-- Points are added, and the panel shows them. -/
theorem union (h : s.Is c p) {points : Set (UInt8 × UInt8)} {g : Gram}
    (hg : ∀ x y, lit g x y = true ↔ lit s.gram x y = true ∨ (x, y) ∈ points ∧ OnScreen x y) :
    Screen.Is c ⟨g, oledRefreshGram c.device g s.wire⟩ ⟨p.drawn ∪ points, p.drawn ∪ points⟩ := by
  have hdrawn : Screen.Is c ⟨g, s.wire⟩ ⟨p.drawn ∪ points, p.shown⟩ := by
    refine ⟨fun x y hon => ?_, h.shown⟩
    rw [hg, h.drawn x y hon, and_iff_left hon]
    rfl
  exact hdrawn.pages g hdrawn.drawn

end Screen.Is

/-- A drawing that ends makes the picture. -/
theorem run_of_ends {s : Screen σ} {p : Picture} (h : s.Is c p) {drawing : Drawing}
    (hends : drawing.Ends) : ∃ s' : Screen σ, s'.Is c (p.draw drawing) ∧
      ∀ fuel, 257 ≤ fuel → drawing.run c.device fuel s = some s' := by
  cases drawing with
  | point x y t => exact ⟨_, h.point x y t, fun _ _ => rfl⟩
  | refresh => exact ⟨_, h.pages s.gram h.drawn, fun _ _ => rfl⟩
  | clear =>
      refine ⟨_, h.pages (fun _ _ => 0) fun x y _ => ?_, fun _ _ => rfl⟩
      exact iff_of_false (ne_true_of_eq_false (lit_zero x y)) id
  | on => exact ⟨_, h.pages (fun _ _ => 1) fun _ _ _ => lit_one_iff, fun _ _ => rfl⟩
  | fill byte => exact ⟨_, h.pages (fun _ _ => byte) fun _ _ _ => .rfl, fun _ _ => rfl⟩
  | picture table =>
      exact ⟨_, h.pages (pictureGram table) fun _ _ _ => .rfl, fun _ _ => rfl⟩
  | rect x0 y0 x1 y1 =>
      obtain ⟨g, hruns, hlit⟩ := rectLoops_of_ends hends y0 s.gram
      refine ⟨⟨g, oledRefreshGram c.device g s.wire⟩, h.union hlit, fun fuel hfuel => ?_⟩
      rw [Drawing.run, oledDrawRect, hruns fuel hfuel]
      rfl
  | circ x y r =>
      obtain ⟨g, hruns, hlit⟩ := circLoops_of_ends hends s.gram
      refine ⟨⟨g, oledRefreshGram c.device g s.wire⟩, h.union hlit, fun fuel hfuel => ?_⟩
      rw [Drawing.run, oledDrawCirc, hruns fuel hfuel]
      rfl

/-- Another drawing never ends. -/
theorem run_of_not_ends (d : Device σ) (s : Screen σ) {drawing : Drawing}
    (hends : ¬ drawing.Ends) (fuel : Nat) : drawing.run d fuel s = none := by
  cases drawing with
  | point | refresh | clear | on | fill | picture => exact absurd trivial hends
  | rect x0 y0 x1 y1 =>
      rw [Drawing.run, oledDrawRect, rectLoops_of_not_ends hends]
      rfl
  | circ x y r =>
      rw [Drawing.run, oledDrawCirc, circLoops_of_not_ends hends]
      rfl

/-! ## Drawings one after the other -/

/-- Drawings one after the other. -/
def runs (d : Device σ) (fuel : Nat) (s : Screen σ) : List Drawing → Option (Screen σ)
  | [] => some s
  | drawing :: drawings => (drawing.run d fuel s).bind (runs d fuel · drawings)

/-- Drawings that end make the picture. -/
theorem runs_of_ends {s : Screen σ} {p : Picture} (h : s.Is c p) {drawings : List Drawing}
    (hends : ∀ drawing ∈ drawings, drawing.Ends) :
    ∃ s' : Screen σ, s'.Is c (drawings.foldl Picture.draw p) ∧
      ∀ fuel, 257 ≤ fuel → runs c.device fuel s drawings = some s' := by
  induction drawings generalizing s p with
  | nil => exact ⟨s, h, fun _ _ => rfl⟩
  | cons drawing drawings ih =>
      obtain ⟨s₁, hs₁, hrun⟩ := run_of_ends h (hends drawing List.mem_cons_self)
      obtain ⟨s', hs', hruns⟩ := ih hs₁ fun d hd => hends d (List.mem_cons_of_mem drawing hd)
      refine ⟨s', hs', fun fuel hfuel => ?_⟩
      rw [runs, hrun fuel hfuel]
      exact hruns fuel hfuel

/-- A drawing that does not end stops the others. -/
theorem runs_of_not_ends (d : Device σ) (s : Screen σ) {drawing : Drawing}
    {drawings : List Drawing} (hmem : drawing ∈ drawings) (hends : ¬ drawing.Ends) (fuel : Nat) :
    runs d fuel s drawings = none := by
  induction drawings generalizing s with
  | nil => cases hmem
  | cons first drawings ih =>
      rw [runs, Option.bind_eq_none_iff]
      intro s₁ hs₁
      rcases List.mem_cons.mp hmem with rfl | hrest
      · rw [run_of_not_ends d s hends] at hs₁
        cases hs₁
      · exact ih s₁ hrest

/-- Whatever the firmware draws, on any screen: if every drawing ends, the screen then is the
picture, in the firmware and on the panel.  If one does not, the firmware hangs. -/
theorem drawings_refine {s : Screen σ} {p : Picture} (h : s.Is c p) (drawings : List Drawing) :
    ((∀ drawing ∈ drawings, drawing.Ends) →
      ∃ s' : Screen σ, s'.Is c (drawings.foldl Picture.draw p) ∧
        ∀ fuel, 257 ≤ fuel → runs c.device fuel s drawings = some s') ∧
    (∀ drawing ∈ drawings, ¬ drawing.Ends → ∀ fuel, runs c.device fuel s drawings = none) :=
  ⟨runs_of_ends h, fun _ hmem hends => runs_of_not_ends c.device s hmem hends⟩

/-- On a dark screen a disc is drawn, and its centre is cleared. -/
theorem drawings_refine_dark :
    ∃ s' : Screen Ssd1306,
      s'.Is ssd1306 ([Drawing.circ 64 32 10, .point 64 32 0].foldl Picture.draw ⟨∅, ∅⟩) ∧
      ∀ fuel, 257 ≤ fuel →
        runs ssd1306.device fuel dark [.circ 64 32 10, .point 64 32 0] = some s' :=
  (drawings_refine dark_is _).1 (by decide)

/-! ## Discs -/

/-- The points of a disc that the loops reach: all of them, or none. -/
theorem inDisc_reached_iff {x y r i j : UInt8} (hr : r < 128) :
    InDisc x y r i j ∧ x - r ≤ i ∧ y - r ≤ j ↔ (r ≤ x ∧ r ≤ y) ∧ InDisc x y r i j := by
  constructor
  · rintro ⟨hdisc, hi, hj⟩
    have hbounds := InDisc.bounds hdisc
    refine ⟨⟨?_, ?_⟩, hdisc⟩
    · exact UInt8.not_lt.mp fun hx => not_le_of_round hr hx hbounds.1.2 hi
    · exact UInt8.not_lt.mp fun hy => not_le_of_round hr hy hbounds.2.2 hj
  · rintro ⟨⟨hx, hy⟩, hdisc⟩
    have hbounds := InDisc.bounds hdisc
    have hx' : r.toNat ≤ x.toNat := UInt8.le_iff_toNat_le.mp hx
    have hy' : r.toNat ≤ y.toNat := UInt8.le_iff_toNat_le.mp hy
    refine ⟨hdisc, ?_⟩
    rw [UInt8.le_iff_toNat_le, UInt8.le_iff_toNat_le, UInt8.toNat_sub_of_le _ _ hx,
      UInt8.toNat_sub_of_le _ _ hy]
    omega

/-- A disc whose radius is less than 128 is drawn with all its points on the screen, or not at all:
it is not if it leaves the screen on the left or at the top. -/
theorem oledDrawCirc_all_or_none (d : Device σ) (s : Screen σ) {x y r : UInt8} (hr : r < 128)
    (hends : CircEnds x y r) :
    ∃ s' : Screen σ, (∀ fuel, 257 ≤ fuel → oledDrawCirc d fuel x y r s = some s') ∧
      ∀ i j, lit s'.gram i j = true ↔ lit s.gram i j = true ∨
        (r ≤ x ∧ r ≤ y) ∧ InDisc x y r i j ∧ OnScreen i j := by
  obtain ⟨g, hruns, hlit⟩ := circLoops_of_ends hends s.gram
  refine ⟨⟨g, oledRefreshGram d g s.wire⟩, fun fuel hfuel => ?_, fun i j => ?_⟩
  · rw [oledDrawCirc, hruns fuel hfuel]
    rfl
  · have hpoint : InDisc x y r i j ∧ x - r ≤ i ∧ y - r ≤ j ↔
        (r ≤ x ∧ r ≤ y) ∧ InDisc x y r i j := inDisc_reached_iff hr
    rw [hlit, hpoint, and_assoc]

/-- A disc over the left edge of a dark screen. -/
theorem oledDrawCirc_all_or_none_left :
    ∃ s' : Screen Ssd1306,
      (∀ fuel, 257 ≤ fuel → oledDrawCirc ssd1306.device fuel 5 32 10 dark = some s') ∧
      ∀ i j, lit s'.gram i j = false := by
  obtain ⟨s', hruns, hlit⟩ := @oledDrawCirc_all_or_none _ ssd1306.device dark 5 32 10
    (by decide) (by decide)
  refine ⟨s', hruns, fun i j => Bool.eq_false_iff.mpr fun h => ?_⟩
  rcases (hlit i j).mp h with hdark | ⟨⟨hleft, -⟩, -⟩
  · cases (lit_zero i j).symm.trans hdark
  · exact absurd hleft (by decide)

end IotEdge.Oled
