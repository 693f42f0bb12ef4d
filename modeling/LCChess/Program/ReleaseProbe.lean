import LCChess.Program.Playing

/-!
# The probe of the release

Before the release handler checks that the cursor is on the board it prints the byte of
`mem_board` at the top-left pixel of the cursor's square. The squares left of and above the board
are quotients of wrapped subtractions; multiplied back they are columns `-45` and `14`, and rows
`-46` and `13`, of the screen. The row `-46` is an offset that wraps around 32 bits.

## Main definitions

* `releaseReads`: the offsets into `mem_board` the release reads

## Main results

* `cursor_mode115`: where `updateCursor` puts the cursor
* `releaseReads_inside_iff`: the release stays in `mem_board` iff the cursor is below row 12
-/

namespace LCChess

/-- `3*(getScreenY(y)*get_h_res()+getScreenX(x))`, an `unsigned`. -/
def probeOffset (g : Geometry) (x y : ℤ) : ℕ :=
  u32 (3 * (getScreenY g y * g.xResolution + getScreenX g x))

/-- The offsets into `mem_board` at which a release reads: one byte is printed, and on the board
three bytes are compared. -/
def releaseReads (g : Geometry) (cursor : Cursor) : List ℕ :=
  let y := getBoardY g cursor.y.toNat
  let x := getBoardX g cursor.x.toNat
  let offset := probeOffset g x y
  offset :: if OnBoard x y then [offset, offset + 1, offset + 2] else []

/-- The release reads the three bytes of one pixel. -/
theorem mem_releaseReads {g : Geometry} {cursor : Cursor} {a : ℕ}
    (h : a ∈ releaseReads g cursor) :
    a ≤ probeOffset g (getBoardX g cursor.x.toNat) (getBoardY g cursor.y.toNat) + 2 := by
  simp only [releaseReads, List.mem_cons] at h
  rcases h with h | h
  · omega
  · split_ifs at h
    · simp only [List.mem_cons, List.not_mem_nil, or_false] at h
      omega
    · exact absurd h List.not_mem_nil

/-- `updateCursor` clamps the cursor to the screen, wherever it was. -/
theorem cursor_mode115 (pp : Packet) (cursor : Cursor) :
    (updateCursor mode115 pp cursor).x.toNat ≤ 788 ∧
      (updateCursor mode115 pp cursor).y.toNat ≤ 580 := by
  have hx := x_updateCursor pp cursor (g := mode115) (by decide) (by decide)
  have hy := y_updateCursor pp cursor (g := mode115) (by decide) (by decide)
  have hcolumn := (clampTo_mem (show (0 : ℤ) ≤ 788 by decide) (cursor.x.toNat + pp.deltaX.toInt)).2
  have hrow := (clampTo_mem (show (0 : ℤ) ≤ 580 by decide) (cursor.y.toNat - pp.deltaY.toInt)).2
  constructor
  · exact_mod_cast hx.trans_le hcolumn
  · exact_mod_cast hy.trans_le hrow

/-- The screen column of the square under pixel column `p`: left of the board it is one square
before column 65, modulo `2 ^ 32`. -/
theorem getScreenX_getBoardX_mode115 {p : ℤ} (h : 0 ≤ p) (h' : p ≤ 788) :
    (p < 14 ∧ getScreenX mode115 (getBoardX mode115 p) = -45) ∨
      (14 ≤ getScreenX mode115 (getBoardX mode115 p) ∧
        getScreenX mode115 (getBoardX mode115 p) ≤ 773) := by
  rw [getBoardX_mode115_eq]
  rcases lt_or_ge p 65 with hp | hp
  · rw [u32_of_neg (by omega) (by omega)]
    rcases lt_or_ge p 14 with hp' | hp'
    -- two squares to the left: columns 0 to 13
    · have hcol : (p - 65 + 4294967296) / 59 = 72796054 := by omega
      exact Or.inl ⟨hp', by rw [hcol]; decide⟩
    -- one square to the left
    · have hcol : (p - 65 + 4294967296) / 59 = 72796055 := by omega
      exact Or.inr (by rw [hcol]; decide)
  · rw [u32_of_nonneg (by omega) (by omega),
      getScreenX_mode115 (by omega) (by omega)]
    omega

/-- The screen row of the square under pixel row `p`. -/
theorem getScreenY_getBoardY_mode115 {p : ℤ} (h : 0 ≤ p) (h' : p ≤ 580) :
    (p < 13 ∧ getScreenY mode115 (getBoardY mode115 p) = -46) ∨
      (13 ≤ p ∧ 13 ≤ getScreenY mode115 (getBoardY mode115 p) ∧
        getScreenY mode115 (getBoardY mode115 p) ≤ 536) := by
  rw [getBoardY_mode115_eq]
  rcases lt_or_ge p 64 with hp | hp
  · rw [u32_of_neg (by omega) (by omega)]
    rcases lt_or_ge p 13 with hp' | hp'
    · have hrow : (p - 64 + 4294967296) / 59 = 72796054 := by omega
      exact Or.inl ⟨hp', by rw [hrow]; decide⟩
    · have hrow : (p - 64 + 4294967296) / 59 = 72796055 := by omega
      exact Or.inr ⟨hp', by rw [hrow]; decide⟩
  · rw [u32_of_nonneg (by omega) (by omega),
      getScreenY_mode115 (by omega) (by omega)]
    omega

/-- The offset of the probe is in `mem_board`, with the two bytes behind it, unless the cursor
is in one of the first 13 rows. -/
theorem probeOffset_mode115 {x y : ℤ} (hx : 0 ≤ x) (hx' : x ≤ 788) (hy : 0 ≤ y) (hy' : y ≤ 580) :
    (y < 13 ∧ vramSize mode115 ≤
        probeOffset mode115 (getBoardX mode115 x) (getBoardY mode115 y)) ∨
      (13 ≤ y ∧ probeOffset mode115 (getBoardX mode115 x) (getBoardY mode115 y) + 2 <
        vramSize mode115) := by
  have hvram : vramSize mode115 = 1440000 := by decide
  have hres : (mode115.xResolution : ℤ) = 800 := rfl
  rw [hvram, probeOffset, hres]
  have hsx : -45 ≤ getScreenX mode115 (getBoardX mode115 x) ∧
      getScreenX mode115 (getBoardX mode115 x) ≤ 773 := by
    have := getScreenX_getBoardX_mode115 hx hx'
    omega
  rcases getScreenY_getBoardY_mode115 hy hy' with ⟨hlow, hsy⟩ | ⟨hhigh, hsy⟩
  · -- the row `-46` makes the offset negative
    refine Or.inl ⟨hlow, ?_⟩
    have hwrap := u32_of_neg (z := 3 * (-46 * 800 + getScreenX mode115 (getBoardX mode115 x)))
      (by omega) (by omega)
    rw [hsy]
    omega
  · refine Or.inr ⟨hhigh, ?_⟩
    have hsmall := u32_of_nonneg (z := 3 * (getScreenY mode115 (getBoardY mode115 y) * 800 +
      getScreenX mode115 (getBoardX mode115 x))) (by omega) (by omega)
    omega

/-- **The release stays inside `mem_board`**, with its reads and with the repainting of the
board, iff the cursor is not in one of the first 13 rows of the screen. -/
theorem releaseReads_inside_iff (pp : Packet) (cursor : Cursor) :
    ((∀ a ∈ releaseReads mode115 (updateCursor mode115 pp cursor), a < vramSize mode115) ∧
      ∀ (memBoard : Memory) (a : ℕ), vramSize mode115 ≤ a →
        drawBoard mode115 memBoard a = memBoard a) ↔
      13 ≤ (updateCursor mode115 pp cursor).y := by
  obtain ⟨hx, hy⟩ := cursor_mode115 pp cursor
  generalize updateCursor mode115 pp cursor = c at hx hy ⊢
  have hrow : 13 ≤ c.y ↔ 13 ≤ c.y.toNat := UInt16.le_iff_toNat_le
  have hoffset := probeOffset_mode115 (x := c.x.toNat) (y := c.y.toNat) (by omega) (by omega)
    (by omega) (by omega)
  rw [hrow]
  constructor
  · rintro ⟨hreads, -⟩
    have hfirst := hreads (probeOffset mode115 (getBoardX mode115 c.x.toNat)
      (getBoardY mode115 c.y.toNat)) (by simp only [releaseReads, List.mem_cons, true_or])
    rcases hoffset with ⟨-, hout⟩ | ⟨hhigh, -⟩
    · exact absurd hfirst (Nat.not_lt.mpr hout)
    · omega
  · intro hhigh
    have hin := (hoffset.resolve_left fun hlow => by omega).2
    refine ⟨fun a ha => ?_, fun memBoard a ha => ?_⟩
    · have hle := mem_releaseReads ha
      omega
    · exact drawBoard_outside fits_mode115 (by decide) memBoard ha

/-- A piece dropped in the top left corner of the screen: the offset is `2 ^ 32 - 110535`. -/
theorem releaseReads_corner :
    releaseReads mode115 (updateCursor mode115 ⟨false, false, false, false, false, 0, 0⟩
      ⟨0, 0, true, false⟩) = [4294856761] ∧ vramSize mode115 ≤ 4294856761 := by
  constructor <;> decide

end LCChess
