import DzOS.Drivers.Framebuffer

/-!
# `DzOS.Proofs.Drivers.Framebuffer`: what a write to the framebuffer touches

`fbWriteRows_from` gives the run of the loop in closed form: it copies the rows up to some `k`,
and stops because all rows are full or because no more than a row of pixels is left. From it,
`fbWriteOp_copies` has all copies of a write.

The size is in bytes, but the driver counts it in pixels. So a write stays inside both buffers
exactly when the source has the bytes of the whole current screen and the rows of the screen are a
whole number of pixels apart (`fbWrite_inside_iff`).
-/

set_option autoImplicit false

namespace DzOS.Proofs.Drivers

open DzOS.Lib DzOS.Drivers

/-- The screen holds its rows, lies in the address space, and shows no more than all of it. -/
structure Geometry (data : FbDeviceData) : Prop where
  pitch : 4 * data.fb.width.toNat ≤ data.fb.pitch.toNat
  fits : data.fb.pitch.toNat * data.fb.height.toNat ≤ 2 ^ 64
  width : data.currentWidth ≤ data.fb.width
  height : data.currentHeight ≤ data.fb.height

/-- The offset of byte `j` of pixel `(r, c)`. -/
def pixelByte (data : FbDeviceData) (r c j : Nat) : Nat := r * data.fb.pitch.toNat + 4 * c + j

/-- The byte belongs to a visible pixel. -/
def Visible (data : FbDeviceData) (off : Nat) : Prop :=
  ∃ r < data.currentHeight.toNat, ∃ c < data.currentWidth.toNat, ∃ j < 4,
    off = pixelByte data r c j

/-- What a write of `len` bytes may do, and what it has to do. -/
structure WritesInside (data : FbDeviceData) (len : UInt64) (copies : List FbCopy) : Prop where
  /-- It reads no byte behind the source. -/
  reads : ∀ copy ∈ copies, ∀ i < copy.len, copy.src + i < len.toNat
  /-- It writes bytes of visible pixels only. -/
  writes : ∀ copy ∈ copies, ∀ i < copy.len, Visible data (copy.dst + i)
  /-- Each visible pixel is that of the source, as far as the source goes. -/
  pixels : ∀ source screen : Bytes, ∀ r < data.currentHeight.toNat,
    ∀ c < data.currentWidth.toNat,
      4 * (r * data.currentWidth.toNat + c) + 4 ≤ len.toNat → ∀ j < 4,
        applyCopies source screen copies (pixelByte data r c j) =
          source (4 * (r * data.currentWidth.toNat + c) + j)

variable {data : FbDeviceData} {len : UInt64}

/-! ### The loop -/

/-- The copy of the whole row `i`. -/
def wholeRow (data : FbDeviceData) (i : Nat) : FbCopy :=
  rowCopy data.fb i (i * data.currentWidth.toNat) data.currentWidth.toNat

/-- The variables after `k` whole rows. -/
def afterRows (data : FbDeviceData) (size k : Nat) : FbCursor where
  row := k
  given := k * data.currentWidth.toNat
  size := size - k * data.currentWidth.toNat
  displayed := k * data.currentWidth.toNat
  copies := (List.range k).map (wholeRow data)

/-- From the state after `i` rows, the loop goes on to the state after some `k` rows, and each of
them had more than a row of pixels before it. -/
theorem fbWriteRows_from (data : FbDeviceData) {size i fuel : Nat}
    (hfuel : i + fuel = data.currentHeight.toNat)
    (hrows : ∀ j < i, (j + 1) * data.currentWidth.toNat < size) :
    ∃ k ≤ data.currentHeight.toNat, fbWriteRows data fuel (afterRows data size i) =
        afterRows data size k ∧
      (∀ j < k, (j + 1) * data.currentWidth.toNat < size) ∧
      (k < data.currentHeight.toNat →
        size - k * data.currentWidth.toNat ≤ data.currentWidth.toNat) := by
  induction fuel generalizing i with
  | zero =>
    refine ⟨i, by omega, rfl, hrows, fun hk => ?_⟩
    omega
  | succ fuel ih =>
    unfold fbWriteRows
    -- A turn copies row `i`, unless no more than a row of pixels is left.
    by_cases hfull : data.currentWidth.toNat < size - i * data.currentWidth.toNat
    · have hmul := Nat.succ_mul i data.currentWidth.toNat
      have hnext : (afterRows data size (i + 1)) =
          { row := i + 1
            given := i * data.currentWidth.toNat + data.currentWidth.toNat
            size := size - i * data.currentWidth.toNat - data.currentWidth.toNat
            displayed := i * data.currentWidth.toNat + data.currentWidth.toNat
            copies := (List.range i).map (wholeRow data) ++ [wholeRow data i] } := by
        simp only [afterRows, List.range_succ, List.map_append, List.map_singleton, Nat.sub_sub,
          Nat.succ_mul]
      rw [if_pos ⟨hfull, by simp only [afterRows]; omega⟩]
      have hrows' : ∀ j < i + 1, (j + 1) * data.currentWidth.toNat < size := by
        intro j hj
        rcases Nat.lt_succ_iff_lt_or_eq.mp hj with hj | rfl
        · exact hrows j hj
        · rw [Nat.add_mul, Nat.one_mul]
          omega
      have hrest := ih (i := i + 1) (by omega) hrows'
      rw [hnext] at hrest
      exact hrest
    · rw [if_neg fun h => hfull h.1]
      exact ⟨i, by omega, rfl, hrows, fun _ => Nat.le_of_not_lt hfull⟩

/-- The copies of a write: `k` whole rows, and then the rest of the source, unless all rows are
full. -/
theorem fbWriteOp_copies (data : FbDeviceData) (len : UInt64) :
    ∃ k ≤ data.currentHeight.toNat,
      (∀ j < k, (j + 1) * data.currentWidth.toNat < len.toNat) ∧
      (k < data.currentHeight.toNat →
        len.toNat - k * data.currentWidth.toNat ≤ data.currentWidth.toNat) ∧
      (fbWriteOp data len).2 = (List.range k).map (wholeRow data) ++
        if k < data.currentHeight.toNat ∧ len.toNat - k * data.currentWidth.toNat ≠ 0 then
          [rowCopy data.fb k (k * data.currentWidth.toNat)
            (len.toNat - k * data.currentWidth.toNat)]
        else [] := by
  have hstart : (⟨0, 0, len.toNat, 0, []⟩ : FbCursor) = afterRows data len.toNat 0 := by
    simp [afterRows]
  obtain ⟨k, hk, hrun, hrows, hstop⟩ := fbWriteRows_from data (Nat.zero_add _)
    fun j hj => show (j + 1) * data.currentWidth.toNat < len.toNat from
      absurd hj (Nat.not_lt_zero j)
  refine ⟨k, hk, hrows, hstop, ?_⟩
  have hwrite : fbWriteOp data len =
      if k < data.currentHeight.toNat ∧ len.toNat - k * data.currentWidth.toNat ≠ 0 then
        (Int.bmod (((k * data.currentWidth.toNat : ℕ) : ℤ) +
            ((len.toNat - k * data.currentWidth.toNat : ℕ) : ℤ)) (2 ^ 32),
          (List.range k).map (wholeRow data) ++ [rowCopy data.fb k (k * data.currentWidth.toNat)
            (len.toNat - k * data.currentWidth.toNat)])
      else (Int.bmod ((k * data.currentWidth.toNat : ℕ) : ℤ) (2 ^ 32),
        (List.range k).map (wholeRow data)) := by
    unfold fbWriteOp
    rw [hstart, hrun]
    rfl
  by_cases hrest : k < data.currentHeight.toNat ∧ len.toNat - k * data.currentWidth.toNat ≠ 0
  · rw [hwrite, if_pos hrest, if_pos hrest]
  · rw [hwrite, if_neg hrest, if_neg hrest, List.append_nil]

/-! ### A copy on a screen that fits -/

theorem Geometry.width_le (g : Geometry data) : data.currentWidth.toNat ≤ data.fb.width.toNat :=
  g.width

/-- The place and the length of a copy. Nothing overflows on a screen that fits. -/
theorem rowCopy_eq (g : Geometry data) {row given pixels : Nat}
    (hrow : row < data.currentHeight.toNat)
    (hpixels : pixels ≤ data.currentWidth.toNat) :
    rowCopy data.fb row given pixels =
      ⟨4 * (row * (data.fb.pitch.toNat / 4)), 4 * given, 4 * pixels⟩ := by
  have hheight : row + 1 ≤ data.fb.height.toNat := Nat.lt_of_lt_of_le hrow g.height
  -- The row is on the screen, and the whole screen is in the addresses.
  have hend : (row + 1) * data.fb.pitch.toNat ≤ 2 ^ 64 := by
    refine Nat.le_trans (Nat.mul_le_mul_right _ hheight) ?_
    rw [Nat.mul_comm]
    exact g.fits
  have hpitch := data.fb.pitch.toNat_lt
  have hquot : 4 * (row * (data.fb.pitch.toNat / 4)) ≤ row * data.fb.pitch.toNat := by
    rw [Nat.mul_left_comm]
    exact Nat.mul_le_mul_left row (Nat.mul_div_le _ _)
  have hsplit := Nat.succ_mul row data.fb.pitch.toNat
  have hdst : 4 * (row * (data.fb.pitch.toNat / 4)) < 2 ^ 64 := by
    rcases Nat.eq_zero_or_pos data.fb.pitch.toNat with hzero | hpos
    · rw [hzero]
      norm_num
    · rw [Nat.succ_eq_add_one] at hsplit
      omega
  have hwidth := g.width_le
  have hp := g.pitch
  unfold rowCopy
  congr 1
  · rw [Nat.mod_eq_of_lt (a := row * _) (by omega), Nat.mod_eq_of_lt hdst]
  · rw [Nat.mod_eq_of_lt (by omega), Nat.mul_comm]

theorem wholeRow_eq (g : Geometry data) {i : Nat} (hi : i < data.currentHeight.toNat) :
    wholeRow data i = ⟨4 * (i * (data.fb.pitch.toNat / 4)), 4 * (i * data.currentWidth.toNat),
      4 * data.currentWidth.toNat⟩ :=
  rowCopy_eq g hi (Nat.le_refl _)

/-- All rows are whole if the source has the bytes of the whole current screen. -/
theorem fbWriteOp_whole (hlen : 0 < len.toNat)
    (hall : 4 * data.currentWidth.toNat * data.currentHeight.toNat ≤ len.toNat) :
    (fbWriteOp data len).2 = (List.range data.currentHeight.toNat).map (wholeRow data) := by
  obtain ⟨k, hk, hrows, hstop, hcopies⟩ := fbWriteOp_copies data len
  obtain rfl : k = data.currentHeight.toNat := by
    by_contra hne
    have hlt : k < data.currentHeight.toNat := by omega
    have hrest := hstop hlt
    have hmore : (k + 1) * data.currentWidth.toNat ≤
        data.currentHeight.toNat * data.currentWidth.toNat := Nat.mul_le_mul_right _ hlt
    rw [Nat.mul_assoc, Nat.mul_comm data.currentWidth.toNat] at hall
    rw [Nat.add_mul, Nat.one_mul] at hmore
    omega
  rw [hcopies, if_neg fun h => Nat.lt_irrefl _ h.1, List.append_nil]

/-! ### The source -/

/-- A write that stays inside the source has the bytes of the whole current screen. -/
theorem WritesInside.source (g : Geometry data) (hlen : 0 < len.toNat)
    (h : WritesInside data len (fbWriteOp data len).2) :
    4 * data.currentWidth.toNat * data.currentHeight.toNat ≤ len.toNat := by
  obtain ⟨k, hk, hrows, hstop, hcopies⟩ := fbWriteOp_copies data len
  -- The last byte that a copy reads.
  have hlast : ∀ copy ∈ (fbWriteOp data len).2, 0 < copy.len → copy.src + copy.len ≤ len.toNat := by
    intro copy hcopy hpos
    have hread := h.reads copy hcopy (copy.len - 1) (by omega)
    omega
  rw [hcopies] at hlast
  -- With all rows full, the last copy is the last row. Otherwise it is the rest of the source,
  -- which counts as pixels and so is read four times too far.
  rcases Nat.eq_or_lt_of_le hk with rfl | hlt
  · rcases Nat.eq_zero_or_pos data.currentHeight.toNat with hzero | hpos
    · rw [hzero, Nat.mul_zero]
      exact Nat.zero_le _
    rcases Nat.eq_zero_or_pos data.currentWidth.toNat with hzero | hwpos
    · rw [hzero, Nat.mul_zero, Nat.zero_mul]
      exact Nat.zero_le _
    have hmem : wholeRow data (data.currentHeight.toNat - 1) ∈
        (List.range data.currentHeight.toNat).map (wholeRow data) :=
      List.mem_map_of_mem (List.mem_range.mpr (by omega))
    have hrow := hlast _ (List.mem_append_left _ hmem)
    rw [wholeRow_eq g (by omega)] at hrow
    have hread := hrow (by dsimp only; omega)
    have hmul : (data.currentHeight.toNat - 1) * data.currentWidth.toNat + data.currentWidth.toNat =
        data.currentWidth.toNat * data.currentHeight.toNat := by
      rw [← Nat.succ_mul, Nat.succ_eq_add_one, Nat.sub_add_cancel hpos, Nat.mul_comm]
    rw [Nat.mul_assoc]
    dsimp only at hread
    omega
  · exfalso
    have hrest := hstop hlt
    have hne : len.toNat - k * data.currentWidth.toNat ≠ 0 := by
      rcases Nat.eq_zero_or_pos k with rfl | hpos
      · rw [Nat.zero_mul]
        omega
      · have hrow := hrows (k - 1) (by omega)
        rw [Nat.sub_add_cancel hpos] at hrow
        omega
    rw [if_pos ⟨hlt, hne⟩, rowCopy_eq g hlt hrest] at hlast
    have hread :=
      hlast _ (List.mem_append_right _ (List.mem_singleton_self _)) (by dsimp only; omega)
    dsimp only at hread
    omega

/-! ### The rows -/

/-- The rows of the screen are a whole number of pixels apart, as far as this matters. -/
def RowsAligned (data : FbDeviceData) : Prop :=
  4 ∣ data.fb.pitch.toNat ∨ data.currentHeight.toNat ≤ 1 ∨ data.currentWidth.toNat = 0

/-- A write that stays inside the screen finds its rows aligned. -/
theorem WritesInside.rowsAligned (g : Geometry data) (hlen : 0 < len.toNat)
    (h : WritesInside data len (fbWriteOp data len).2) : RowsAligned data := by
  by_contra hno
  simp only [RowsAligned, not_or] at hno
  obtain ⟨hdvd, hheight, hwidth⟩ := hno
  have hmem : wholeRow data 1 ∈ (fbWriteOp data len).2 := by
    rw [fbWriteOp_whole hlen (h.source g hlen)]
    exact List.mem_map_of_mem (List.mem_range.mpr (by omega))
  have hvis := h.writes _ hmem 0
  rw [wholeRow_eq g (by omega)] at hvis
  -- The second row starts before its first pixel, and behind every pixel of the first row.
  obtain ⟨r, -, c, hc, j, hj, heq⟩ := hvis (by dsimp only; omega)
  have hwide := g.width_le
  have hpitch := g.pitch
  unfold pixelByte at heq
  dsimp only at heq
  rcases Nat.eq_zero_or_pos r with rfl | hpos
  · omega
  · have hle : data.fb.pitch.toNat ≤ r * data.fb.pitch.toNat := Nat.le_mul_of_pos_left _ hpos
    omega

/-- The start of a row on a screen with aligned rows. -/
theorem RowsAligned.start (h : RowsAligned data) (hwidth : data.currentWidth.toNat ≠ 0) {r : ℕ}
    (hr : r < data.currentHeight.toNat) :
    4 * (r * (data.fb.pitch.toNat / 4)) = r * data.fb.pitch.toNat := by
  rcases h with hdvd | hheight | hzero
  · rw [Nat.mul_left_comm, Nat.mul_div_cancel' hdvd]
  · obtain rfl : r = 0 := by omega
    simp
  · exact absurd hzero hwidth

/-! ### The pixels -/

/-- The screen after the first `k` rows: each of their pixels is that of the source. -/
theorem applyCopies_rows (g : Geometry data) (halign : RowsAligned data) (source screen : Bytes)
    {k r c j : ℕ} (hk : k ≤ data.currentHeight.toNat) (hr : r < k)
    (hc : c < data.currentWidth.toNat) (hj : j < 4) :
    applyCopies source screen ((List.range k).map (wholeRow data)) (pixelByte data r c j) =
      source (4 * (r * data.currentWidth.toNat + c) + j) := by
  induction k with
  | zero => omega
  | succ k ih =>
    have hstart := halign.start (by omega) hk
    have hwide := g.width_le
    have hpitch := g.pitch
    simp only [applyCopies, List.range_succ, List.map_append, List.map_singleton,
      List.foldl_append, List.foldl_cons, List.foldl_nil]
    rw [wholeRow_eq g hk]
    dsimp only
    rw [hstart]
    -- Row `k` is apart from the rows before it, and is the one that is copied last.
    rcases Nat.lt_succ_iff_lt_or_eq.mp hr with hlt | rfl
    · have hnext : (r + 1) * data.fb.pitch.toNat ≤ k * data.fb.pitch.toNat :=
        Nat.mul_le_mul_right _ hlt
      rw [Nat.add_mul, Nat.one_mul] at hnext
      rw [Bytes.blit_of_apart (.inl (by unfold pixelByte; omega))]
      exact ih (by omega) hlt
    · rw [Bytes.blit_of_mem (by unfold pixelByte; omega)
        (by rw [Bytes.length_slice]; unfold pixelByte; omega), Bytes.getElem_slice]
      congr 1
      unfold pixelByte
      omega

/-- A write with the bytes of the whole current screen, on a screen with aligned rows. -/
theorem writesInside_whole (g : Geometry data) (hlen : 0 < len.toNat)
    (hall : 4 * data.currentWidth.toNat * data.currentHeight.toNat ≤ len.toNat)
    (halign : RowsAligned data) : WritesInside data len (fbWriteOp data len).2 := by
  rw [fbWriteOp_whole hlen hall]
  have hrow : ∀ copy ∈ (List.range data.currentHeight.toNat).map (wholeRow data),
      ∃ r < data.currentHeight.toNat, copy = ⟨4 * (r * (data.fb.pitch.toNat / 4)),
        4 * (r * data.currentWidth.toNat), 4 * data.currentWidth.toNat⟩ := by
    intro copy hcopy
    obtain ⟨r, hr, rfl⟩ := List.mem_map.mp hcopy
    exact ⟨r, List.mem_range.mp hr, wholeRow_eq g (List.mem_range.mp hr)⟩
  refine ⟨fun copy hcopy i hi => ?_, fun copy hcopy i hi => ?_,
    fun source screen r hr c hc _ j hj =>
      applyCopies_rows g halign source screen (Nat.le_refl _) hr hc hj⟩
  · obtain ⟨r, hr, rfl⟩ := hrow copy hcopy
    have hnext : (r + 1) * data.currentWidth.toNat ≤
        data.currentHeight.toNat * data.currentWidth.toNat := Nat.mul_le_mul_right _ hr
    rw [Nat.add_mul, Nat.one_mul, Nat.mul_comm data.currentHeight.toNat] at hnext
    rw [Nat.mul_assoc] at hall
    dsimp only at hi ⊢
    omega
  · obtain ⟨r, hr, rfl⟩ := hrow copy hcopy
    dsimp only at hi ⊢
    rw [halign.start (by omega) hr]
    exact ⟨r, hr, i / 4, by omega, i % 4, by omega, by unfold pixelByte; omega⟩

/-- A write of no bytes does nothing. -/
theorem writesInside_empty (hlen : len.toNat = 0) :
    WritesInside data len (fbWriteOp data len).2 := by
  obtain ⟨k, -, hrows, -, hcopies⟩ := fbWriteOp_copies data len
  obtain rfl : k = 0 := by
    by_contra hne
    have := hrows 0 (by omega)
    omega
  have hnone : (fbWriteOp data len).2 = [] := by
    rw [hcopies, if_neg (by omega)]
    rfl
  rw [hnone]
  refine ⟨fun copy hcopy => ?_, fun copy hcopy => ?_, fun source screen r hr c hc havail => ?_⟩
  · cases hcopy
  · cases hcopy
  · omega

/-- A write stays inside both buffers and shows the source if and only if it is empty, or its
source has the bytes of the whole current screen and the rows of the screen are aligned. -/
theorem fbWrite_inside_iff (g : Geometry data) :
    WritesInside data len (fbWrite (some data) len).2 ↔
      len.toNat = 0 ∨
        4 * data.currentWidth.toNat * data.currentHeight.toNat ≤ len.toNat ∧ RowsAligned data := by
  rcases Nat.eq_zero_or_pos len.toNat with hzero | hpos
  · exact ⟨fun _ => .inl hzero, fun _ => writesInside_empty hzero⟩
  · constructor
    · exact fun h => .inr ⟨h.source g hpos, h.rowsAligned g hpos⟩
    · rintro (hzero | ⟨hall, halign⟩)
      · omega
      · exact writesInside_whole g hpos hall halign

/-- A screen of two pixels. -/
def twoPixels : FbDeviceData :=
  fbInit { width := 2, height := 1, pitch := 8, bpp := 32 }

theorem twoPixels_geometry : Geometry twoPixels := ⟨by decide, by decide, by decide, by decide⟩

/-- The bytes of both pixels fill it. -/
theorem fbWrite_inside_iff_twoPixels : WritesInside twoPixels 8 (fbWrite (some twoPixels) 8).2 :=
  (fbWrite_inside_iff twoPixels_geometry).mpr (.inr ⟨by decide, .inl (by decide)⟩)

/-- The write of its first pixel reads eight bytes of a source of four. -/
theorem not_fbWrite_inside_twoPixels :
    Geometry twoPixels ∧ ¬ WritesInside twoPixels 4 (fbWrite (some twoPixels) 4).2 := by
  refine ⟨twoPixels_geometry, fun h => ?_⟩
  have hread := h.reads ⟨0, 0, 8⟩ (by decide) 7 (by decide)
  exact absurd hread (by decide)

end DzOS.Proofs.Drivers
