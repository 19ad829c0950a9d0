import ZorinTrust.Lib.CText
import ZorinTrust.Lib.Raster

/-!
# Drawing into the window

`fill_rect` and `fill_circle` write to the window's memory; everything else the app draws is a list of such
`Fill`s, in the order they are made.  `paint_spec` says that no list of them writes outside the memory or
to the cells between two rows, and that each pixel shows the colour of the last fill that covers it.
The coordinates are unbounded; `int` overflow is not modelled.
-/

namespace ZorinTrust.Screen

open CText Raster

/-- An `ANativeWindow_Buffer` without its bits. -/
structure Window where
  width : ℤ
  height : ℤ
  /-- The cells of a row, of which the first `width` are pixels. -/
  stride : ℤ
  width_nonneg : 0 ≤ width
  height_nonneg : 0 ≤ height
  width_le : width ≤ stride

/-- The memory holds one cell for each place of each row. -/
def Window.Frame (b : Window) (bits : List UInt32) : Prop := (bits.length : ℤ) = b.stride * b.height

/-- A place in the memory: a pixel, or one of the cells after the last pixel of its row. -/
def Window.Holds (b : Window) (p : ℤ × ℤ) : Prop := (0 ≤ p.1 ∧ p.1 < b.stride) ∧ 0 ≤ p.2 ∧ p.2 < b.height

def Window.Shows (b : Window) (p : ℤ × ℤ) : Prop := (0 ≤ p.1 ∧ p.1 < b.width) ∧ 0 ≤ p.2 ∧ p.2 < b.height

instance decidableShows (b : Window) : DecidablePred b.Shows :=
  fun _ => inferInstanceAs (Decidable ((_ ∧ _) ∧ _ ∧ _))

def Window.pixel (b : Window) (bits : List UInt32) (p : ℤ × ℤ) : Option UInt32 :=
  bits[(cell b.stride p.1 p.2).toNat]?

def rgb (r g b : UInt8) : UInt32 :=
  (0xff000000 : UInt32) ||| b.toUInt32 <<< 16 ||| g.toUInt32 <<< 8 ||| r.toUInt32

/-! ### The two calls that write -/

def fillRect (b : Window) (x y w h : ℤ) (color : UInt32) (bits : List UInt32) : Option (List UInt32) :=
  let w := if x < 0 then w + x else w
  let x := if x < 0 then 0 else x
  let h := if y < 0 then h + y else h
  let y := if y < 0 then 0 else y
  let w := if x + w > b.width then b.width - x else w
  let h := if y + h > b.height then b.height - y else h
  if w ≤ 0 ∨ h ≤ 0 then some bits
  else storeAll color
    ((Int.range 0 h).flatMap fun yy => (Int.range 0 w).map fun xx => (y + yy) * b.stride + x + xx) bits

def fillCircle (b : Window) (cx cy r : ℤ) (color : UInt32) (bits : List UInt32) : Option (List UInt32) :=
  if r ≤ 0 then some bits
  else
    let r2 := r * r
    let y0 := if cy - r < 0 then 0 else cy - r
    let y1 := if cy + r ≥ b.height then b.height - 1 else cy + r
    let x0 := if cx - r < 0 then 0 else cx - r
    let x1 := if cx + r ≥ b.width then b.width - 1 else cx + r
    storeAll color
      ((Int.range y0 (y1 + 1)).flatMap fun y =>
        ((Int.range x0 (x1 + 1)).filter fun x => (x - cx) * (x - cx) + (y - cy) * (y - cy) ≤ r2).map
          fun x => y * b.stride + x) bits

/-- A call of one of them. -/
inductive Fill
  | rect (x y w h : ℤ) (color : UInt32)
  | circle (cx cy r : ℤ) (color : UInt32)
  deriving DecidableEq

namespace Fill

def color : Fill → UInt32
  | rect _ _ _ _ c | circle _ _ _ c => c

/-- The points of the plane it is about. -/
def Covers : Fill → ℤ × ℤ → Prop
  | rect x y w h _, p => (x ≤ p.1 ∧ p.1 < x + w) ∧ y ≤ p.2 ∧ p.2 < y + h
  | circle cx cy r _, p => 0 < r ∧ (p.1 - cx) * (p.1 - cx) + (p.2 - cy) * (p.2 - cy) ≤ r * r

instance decidableCovers : ∀ f : Fill, DecidablePred f.Covers
  | rect .., _ => inferInstanceAs (Decidable (_ ∧ _))
  | circle .., _ => inferInstanceAs (Decidable (_ ∧ _))

def fill (b : Window) : List UInt32 → Fill → Option (List UInt32)
  | bits, rect x y w h c => fillRect b x y w h c bits
  | bits, circle cx cy r c => fillCircle b cx cy r c bits

end Fill

/-- One fill after the other. -/
def paint (b : Window) (fills : List Fill) (bits : List UInt32) : Option (List UInt32) :=
  fills.foldlM (Fill.fill b) bits

/-! ### Calls made of them -/

def outlineRect (x y w h t : ℤ) (c : UInt32) : List Fill :=
  [.rect x y w t c, .rect x (y + h - t) w t c, .rect x y t h c, .rect (x + w - t) y t h c]

def drawRing (cx cy r thickness : ℤ) (color inner : UInt32) : List Fill :=
  let thickness := if thickness < 1 then 1 else thickness
  [.circle cx cy r color, .circle cx cy (r - thickness) inner]

/-- The table of `glyph_row`, seven rows of five bits each. -/
def glyphs : List (Char × List ℕ) :=
  [('0', [14, 17, 19, 21, 25, 17, 14]), ('1', [4, 12, 4, 4, 4, 4, 14]), ('2', [14, 17, 1, 2, 4, 8, 31]),
   ('3', [30, 1, 1, 14, 1, 1, 30]), ('4', [2, 6, 10, 18, 31, 2, 2]), ('5', [31, 16, 16, 30, 1, 1, 30]),
   ('6', [14, 16, 16, 30, 17, 17, 14]), ('7', [31, 1, 2, 4, 8, 8, 8]), ('8', [14, 17, 17, 14, 17, 17, 14]),
   ('9', [14, 17, 17, 15, 1, 1, 14]), ('A', [14, 17, 17, 31, 17, 17, 17]),
   ('B', [30, 17, 17, 30, 17, 17, 30]), ('C', [14, 17, 16, 16, 16, 17, 14]),
   ('D', [30, 17, 17, 17, 17, 17, 30]), ('E', [31, 16, 16, 30, 16, 16, 31]),
   ('F', [31, 16, 16, 30, 16, 16, 16]), ('G', [14, 17, 16, 23, 17, 17, 15]),
   ('H', [17, 17, 17, 31, 17, 17, 17]), ('I', [14, 4, 4, 4, 4, 4, 14]), ('J', [7, 2, 2, 2, 18, 18, 12]),
   ('K', [17, 18, 20, 24, 20, 18, 17]), ('L', [16, 16, 16, 16, 16, 16, 31]),
   ('M', [17, 27, 21, 21, 17, 17, 17]), ('N', [17, 25, 21, 19, 17, 17, 17]),
   ('O', [14, 17, 17, 17, 17, 17, 14]), ('P', [30, 17, 17, 30, 16, 16, 16]),
   ('Q', [14, 17, 17, 17, 21, 18, 13]), ('R', [30, 17, 17, 30, 20, 18, 17]),
   ('S', [15, 16, 16, 14, 1, 1, 30]), ('T', [31, 4, 4, 4, 4, 4, 4]), ('U', [17, 17, 17, 17, 17, 17, 14]),
   ('V', [17, 17, 17, 17, 17, 10, 4]), ('W', [17, 17, 17, 21, 21, 21, 10]),
   ('X', [17, 17, 10, 4, 10, 17, 17]), ('Y', [17, 17, 10, 4, 4, 4, 4]), ('Z', [31, 1, 2, 4, 8, 16, 31]),
   (':', [0, 4, 4, 0, 4, 4, 0]), ('.', [0, 0, 0, 0, 0, 6, 6]), ('/', [1, 2, 2, 4, 8, 8, 16]),
   ('-', [0, 0, 0, 31, 0, 0, 0]), ('_', [0, 0, 0, 0, 0, 0, 31]), ('[', [14, 8, 8, 8, 8, 8, 14]),
   (']', [14, 2, 2, 2, 2, 2, 14]), ('(', [2, 4, 8, 8, 8, 4, 2]), (')', [8, 4, 2, 2, 2, 4, 8]),
   ('+', [0, 4, 4, 31, 4, 4, 0]), ('=', [0, 31, 0, 31, 0, 0, 0]), ('?', [14, 17, 1, 2, 4, 0, 4]),
   ('#', [10, 31, 10, 10, 31, 10, 0]), ('<', [2, 4, 8, 16, 8, 4, 2]), ('>', [8, 4, 2, 1, 2, 4, 8]),
   ('!', [4, 4, 4, 4, 4, 0, 4]), (' ', [0, 0, 0, 0, 0, 0, 0])]
def glyphRow (c : UInt8) (row : ℕ) : ℕ :=
  let c := if 97 ≤ c ∧ c ≤ 122 then c - 32 else c
  ((glyphs.lookup (Char.ofNat c.toNat)).getD [31, 17, 21, 21, 21, 17, 31]).getD row 0

def drawChar (x y : ℤ) (c : UInt8) (scale : ℤ) (color : UInt32) : List Fill :=
  (List.range 7).flatMap fun row =>
    ((List.range 5).filter fun col => (glyphRow c row).testBit (4 - col)).map fun (col : ℕ) =>
      .rect (x + (col : ℤ) * scale) (y + (row : ℤ) * scale) scale scale color

/-- The loop of `draw_text`: the line starts at `start`, and `width` is the window's. -/
def drawTextFrom (width start scale : ℤ) (color : UInt32) : ℤ → ℤ → Bytes → List Fill
  | _, _, [] => []
  | x, y, c :: s =>
    if c = 10 then drawTextFrom width start scale color start (y + 9 * scale) s
    else drawChar x y c scale color ++
      if x + 6 * scale + 6 * scale ≥ width - 16 then
        drawTextFrom width start scale color start (y + 9 * scale) s
      else drawTextFrom width start scale color (x + 6 * scale) y s

def drawText (width x y : ℤ) (s : Bytes) (scale : ℤ) (color : UInt32) : List Fill :=
  drawTextFrom width x scale color x y s

def textWidth (s : Bytes) (scale : ℤ) : ℤ := s.length * 6 * scale

/-! ### What is written -/

section Memory

variable {b : Window} {bits : List UInt32} {c : UInt32}

/-- Writes to the cells of a set of pixels, and to no others. -/
theorem storeAll_pixels {S : ℤ × ℤ → Prop} [DecidablePred S] {is : List ℤ}
    (hcells : ∀ i, i ∈ is ↔ ∃ p, b.Shows p ∧ S p ∧ cell b.stride p.1 p.2 = i) (hbits : b.Frame bits) :
    ∃ bits', storeAll c is bits = some bits' ∧ b.Frame bits' ∧
      ∀ p, b.Holds p → b.pixel bits' p = if b.Shows p ∧ S p then some c else b.pixel bits p := by
  have hwide := b.width_le
  have hin : ∀ p, b.Holds p → 0 ≤ cell b.stride p.1 p.2 ∧ cell b.stride p.1 p.2 < bits.length := by
    rintro p ⟨hx, hy⟩
    rw [hbits]
    exact cell_mem hx hy
  have hshows : ∀ p, b.Shows p → b.Holds p := fun p ⟨hx, hy⟩ => ⟨⟨hx.1, by omega⟩, hy⟩
  obtain ⟨bits', hrun, hlen, hread⟩ := storeAll_spec (c := c) fun i hi => by
    obtain ⟨p, hp, -, rfl⟩ := (hcells i).mp hi
    exact hin p (hshows p hp)
  refine ⟨bits', hrun, (congrArg Nat.cast hlen).trans hbits, fun p hp => ?_⟩
  obtain ⟨h0, hlt⟩ := hin p hp
  rw [Window.pixel, hread _ (by omega), Int.toNat_of_nonneg h0]
  refine if_congr ((hcells _).trans ⟨?_, fun ⟨hshow, hS⟩ => ⟨p, hshow, hS, rfl⟩⟩) rfl rfl
  rintro ⟨q, hq, hS, hcell⟩
  obtain ⟨hx, hy⟩ := (cell_inj (hshows q hq).1 hp.1).mp hcell
  obtain rfl : q = p := Prod.ext hx hy
  exact ⟨hq, hS⟩

/-- **`fill_rect`** colours the pixels of the rectangle that lie in the window. -/
theorem fillRect_spec (x y w h : ℤ) (hbits : b.Frame bits) :
    ∃ bits', fillRect b x y w h c bits = some bits' ∧ b.Frame bits' ∧ ∀ p, b.Holds p →
      b.pixel bits' p = if b.Shows p ∧ (Fill.rect x y w h c).Covers p then some c else b.pixel bits p := by
  unfold fillRect
  extract_lets w₁ x₁ h₁ y₁ w₂ h₂
  have hclip : ∀ p : ℤ × ℤ, b.Shows p ∧ (Fill.rect x y w h c).Covers p ↔
      (x₁ ≤ p.1 ∧ p.1 < x₁ + w₂) ∧ y₁ ≤ p.2 ∧ p.2 < y₁ + h₂ := by
    rintro ⟨px, py⟩
    have hw := b.width_nonneg
    have hh := b.height_nonneg
    simp only [Window.Shows, Fill.Covers, w₂, h₂, w₁, x₁, h₁, y₁]
    split_ifs <;> omega
  by_cases hempty : w₂ ≤ 0 ∨ h₂ ≤ 0
  · rw [if_pos hempty]
    refine ⟨bits, rfl, hbits, fun p _ => ?_⟩
    rw [if_neg fun h => ?_]
    have := (hclip p).mp h
    omega
  · rw [if_neg hempty]
    refine storeAll_pixels (fun i => ?_) hbits
    simp only [List.mem_flatMap, List.mem_map, Int.mem_range_iff, and_assoc.symm, hclip]
    constructor
    · rintro ⟨yy, hyy, xx, hxx, rfl⟩
      exact ⟨(x₁ + xx, y₁ + yy), by dsimp only; omega, by rw [cell]; ring⟩
    · rintro ⟨p, hp, rfl⟩
      exact ⟨p.2 - y₁, by omega, p.1 - x₁, by omega, by rw [cell]; ring⟩

/-- A point of a disc lies in the square around it. -/
theorem disc_bounds {dx dy r : ℤ} (hr : 0 ≤ r) (h : dx * dx + dy * dy ≤ r * r) : -r ≤ dx ∧ dx ≤ r := by
  have hsq : dx ^ 2 ≤ r ^ 2 := by nlinarith [mul_self_nonneg dy]
  exact abs_le_of_sq_le_sq' hsq hr

/-- **`fill_circle`** colours the pixels of the disc that lie in the window. -/
theorem fillCircle_spec (cx cy r : ℤ) (hbits : b.Frame bits) :
    ∃ bits', fillCircle b cx cy r c bits = some bits' ∧ b.Frame bits' ∧ ∀ p, b.Holds p →
      b.pixel bits' p = if b.Shows p ∧ (Fill.circle cx cy r c).Covers p then some c else b.pixel bits p := by
  unfold fillCircle
  by_cases hr : r ≤ 0
  · rw [if_pos hr]
    refine ⟨bits, rfl, hbits, fun p _ => ?_⟩
    rw [if_neg fun h => absurd h.2.1 (by omega)]
  · rw [if_neg hr]
    extract_lets r2 y₀ y₁ x₀ x₁
    refine storeAll_pixels (fun i => ?_) hbits
    have hclip : ∀ x y : ℤ, b.Shows (x, y) ∧ (Fill.circle cx cy r c).Covers (x, y) ↔
        (y₀ ≤ y ∧ y < y₁ + 1) ∧ (x₀ ≤ x ∧ x < x₁ + 1) ∧
          (x - cx) * (x - cx) + (y - cy) * (y - cy) ≤ r2 := by
      intro x y
      simp only [Window.Shows, Fill.Covers, y₀, y₁, x₀, x₁, r2]
      constructor
      · rintro ⟨hshows, -, hdisc⟩
        have hx := disc_bounds (by omega) hdisc
        have hy := disc_bounds (by omega) ((add_comm _ _).trans_le hdisc)
        refine ⟨?_, ?_, hdisc⟩ <;> split_ifs <;> omega
      · rintro ⟨hy, hx, hdisc⟩
        refine ⟨?_, by omega, hdisc⟩
        split_ifs at hy hx <;> omega
    simp only [List.mem_flatMap, List.mem_map, List.mem_filter, Int.mem_range_iff, decide_eq_true_eq]
    constructor
    · rintro ⟨y, hy, x, ⟨hx, hdisc⟩, rfl⟩
      obtain ⟨hshows, hcovers⟩ := (hclip x y).mpr ⟨hy, hx, hdisc⟩
      exact ⟨(x, y), hshows, hcovers, rfl⟩
    · rintro ⟨⟨x, y⟩, hshows, hcovers, rfl⟩
      obtain ⟨hy, hx, hdisc⟩ := (hclip x y).mp ⟨hshows, hcovers⟩
      exact ⟨y, hy, x, ⟨hx, hdisc⟩, rfl⟩

theorem fill_spec (f : Fill) (hbits : b.Frame bits) : ∃ bits', f.fill b bits = some bits' ∧ b.Frame bits' ∧
    ∀ p, b.Holds p → b.pixel bits' p = if b.Shows p ∧ f.Covers p then some f.color else b.pixel bits p := by
  cases f with
  | rect x y w h c => exact fillRect_spec x y w h hbits
  | circle cx cy r c => exact fillCircle_spec cx cy r hbits

/-- **What a list of fills leaves in the memory.** -/
theorem paint_spec (fills : List Fill) (hbits : b.Frame bits) :
    ∃ bits', paint b fills bits = some bits' ∧ b.Frame bits' ∧
      (∀ p, b.Shows p → b.pixel bits' p =
        (top Fill.Covers fills p).elim (b.pixel bits p) fun f => some f.color) ∧
      ∀ p, b.Holds p → ¬ b.Shows p → b.pixel bits' p = b.pixel bits p := by
  obtain ⟨bits', hrun, hframe, hview⟩ := foldlM_painted
    (fun f p => b.Shows p ∧ Fill.Covers f p) (fun _ f hb => fill_spec f hb) fills hbits
  refine ⟨bits', hrun, hframe, fun p hp => ?_, fun p hp hout => ?_⟩
  · have hholds : b.Holds p := ⟨⟨hp.1.1, hp.1.2.trans_le b.width_le⟩, hp.2⟩
    rw [hview p hholds, top_congr fun f _ => and_iff_right hp]
  · rw [hview p hp, top_eq_none fun f _ h => hout h.1]
    rfl

end Memory

/-! ### Where text lies -/

section Text

variable {f : Fill} {p : ℤ × ℤ} {width start x y scale right : ℤ} {color : UInt32}

theorem drawChar_covers {ch : UInt8} (hf : f ∈ drawChar x y ch scale color) (hp : f.Covers p) :
    (x ≤ p.1 ∧ p.1 < x + 5 * scale) ∧ y ≤ p.2 ∧ p.2 < y + 7 * scale := by
  simp only [drawChar, List.mem_flatMap, List.mem_map, List.mem_filter, List.mem_range] at hf
  obtain ⟨row, hrow, col, ⟨hcol, -⟩, rfl⟩ := hf
  obtain ⟨hx, hy⟩ := hp
  have hscale : 0 < scale := by omega
  have hc : (col : ℤ) * scale ≤ 4 * scale := Int.mul_le_mul_of_nonneg_right (by omega) hscale.le
  have hr : (row : ℤ) * scale ≤ 6 * scale := Int.mul_le_mul_of_nonneg_right (by omega) hscale.le
  have hc0 : 0 ≤ (col : ℤ) * scale := Int.mul_nonneg (by omega) hscale.le
  have hr0 : 0 ≤ (row : ℤ) * scale := Int.mul_nonneg (by omega) hscale.le
  omega

/-- A text stays below the line it starts on, between its left edge and the width of all its characters. -/
theorem drawTextFrom_covers (hscale : 0 ≤ scale) : ∀ {s : Bytes} {x y : ℤ}, start ≤ x →
    x + 6 * scale * s.length ≤ right → f ∈ drawTextFrom width start scale color x y s → f.Covers p →
    (start ≤ p.1 ∧ p.1 < right) ∧ y ≤ p.2
  | [], _, _, _, _, hf, _ => absurd hf List.not_mem_nil
  | c :: s, x, y, hx, hright, hf, hp => by
    have hlen : 6 * scale * ((c :: s).length : ℤ) = 6 * scale * s.length + 6 * scale := by
      rw [List.length_cons, Nat.cast_succ]
      ring
    have hpos : 0 ≤ 6 * scale * (s.length : ℤ) := by positivity
    have hnext : ∀ {x' : ℤ}, start ≤ x' → x' ≤ x + 6 * scale → ∀ {y' : ℤ}, y ≤ y' →
        f ∈ drawTextFrom width start scale color x' y' s → (start ≤ p.1 ∧ p.1 < right) ∧ y ≤ p.2 := by
      intro x' hx' hle y' hy' hf'
      have h := drawTextFrom_covers hscale hx' (by omega) hf' hp
      omega
    rw [drawTextFrom] at hf
    split_ifs at hf with hnl hwrap
    · exact hnext le_rfl (by omega) (by omega) hf
    · rcases List.mem_append.mp hf with hf | hf
      · have h := drawChar_covers hf hp
        omega
      · exact hnext le_rfl (by omega) (by omega) hf
    · rcases List.mem_append.mp hf with hf | hf
      · have h := drawChar_covers hf hp
        omega
      · exact hnext (by omega) le_rfl le_rfl hf

/-- A text without line feeds that has the room stays on its line. -/
theorem drawTextFrom_line (hscale : 0 ≤ scale) : ∀ {s : Bytes} {x : ℤ}, 10 ∉ s →
    x + 6 * scale * s.length < width - 16 → f ∈ drawTextFrom width start scale color x y s → f.Covers p →
    p.2 < y + 7 * scale
  | [], _, _, _, hf, _ => absurd hf List.not_mem_nil
  | c :: s, x, hnl, hroom, hf, hp => by
    have hc : c ≠ 10 := fun h => hnl (h ▸ List.mem_cons_self)
    rw [drawTextFrom, if_neg hc] at hf
    rcases List.mem_append.mp hf with hf | hf
    · exact (drawChar_covers hf hp).2.2
    · cases s with
      | nil => split_ifs at hf <;> exact absurd hf List.not_mem_nil
      | cons d s =>
        have hlen : 6 * scale * ((c :: d :: s).length : ℤ) =
            6 * scale * (d :: s).length + 6 * scale := by
          rw [List.length_cons, Nat.cast_succ]
          ring
        have hone : 6 * scale ≤ 6 * scale * ((d :: s).length : ℤ) := by
          rw [List.length_cons, Nat.cast_succ]
          nlinarith [Nat.zero_le s.length, mul_nonneg hscale (Nat.cast_nonneg (α := ℤ) s.length)]
        rw [if_neg (by omega)] at hf
        exact drawTextFrom_line hscale (fun h => hnl (List.mem_cons_of_mem c h)) (by omega) hf hp

end Text

end ZorinTrust.Screen
