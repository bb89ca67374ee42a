import Mathlib.Algebra.Order.Ring.Int
import Mathlib.Data.Int.ConditionallyCompleteOrder
import Mathlib.Data.Set.Pairwise.Lattice
import Mathlib.Order.CompletePartialOrder
import Mathlib.Order.ConditionallyCompleteLattice.Basic
import Mathlib.Order.Interval.Set.Disjoint
import Rsmpv.Lifetime.Render

/-!
# Software Rendering

`RenderInner::render_software` (`render.rs`) is a safe function that hands libmpv the
address of the caller's buffer, with a width, a height and a stride and no length. What
keeps libmpv inside the buffer is the check that comes before the call, in machine
arithmetic: a `usize` has `w` bits, a dimension is signed and has 32, and both products
of the check can overflow.

Over the integers the check is `SurfaceFits`, and a surface that fits has its rows inside
the buffer and apart from each other (`SurfaceFits.row_subset`, `SurfaceFits.rows_apart`).

## Conventions

An address is an offset into the buffer, and the bytes of row `y` are the interval
`rowBytes`. What libmpv writes is what its documentation says: `width` pixels in each of
`height` rows, one stride apart. A product that does not fit in a `usize` is `none`
(`checked_mul`), and what the source does with `none` is to refuse.

## Main results

* `checkedMul_le_iff`: comparing a checked product with a `usize` compares the numbers.
* `checkSoftware_eq`: the check passes exactly when the surface fits.
* `render_software_bounded`: libmpv is called, with the arguments, exactly then, and its
  rows are inside the buffer and apart.
-/

namespace Rsmpv

/-! ### Surfaces -/

/-- A surface of `height` rows of `width` pixels fits in a buffer of `len` bytes. -/
structure SurfaceFits (width height bytesPerPixel stride len : ℤ) : Prop where
  width_nonneg : 0 ≤ width
  height_nonneg : 0 ≤ height
  row_le_stride : width * bytesPerPixel ≤ stride
  rows_le_len : stride * height ≤ len

instance (width height bytesPerPixel stride len : ℤ) :
    Decidable (SurfaceFits width height bytesPerPixel stride len) :=
  decidable_of_iff (0 ≤ width ∧ 0 ≤ height ∧ width * bytesPerPixel ≤ stride ∧
      stride * height ≤ len)
    ⟨fun ⟨h₁, h₂, h₃, h₄⟩ => ⟨h₁, h₂, h₃, h₄⟩, fun ⟨h₁, h₂, h₃, h₄⟩ => ⟨h₁, h₂, h₃, h₄⟩⟩

/-- The bytes of row `y`, as offsets into the buffer. -/
def rowBytes (width bytesPerPixel stride y : ℤ) : Set ℤ :=
  Set.Ico (stride * y) (stride * y + width * bytesPerPixel)

section Rows

variable {width height bytesPerPixel stride len y : ℤ}

/-- A row ends where the next one begins, or before. -/
theorem SurfaceFits.row_end_le (h : SurfaceFits width height bytesPerPixel stride len)
    {y' : ℤ} (hy : y < y') (hstride : 0 ≤ stride) :
    stride * y + width * bytesPerPixel ≤ stride * y' := by
  have hrow := h.row_le_stride
  have hnext : stride * (y + 1) ≤ stride * y' := Int.mul_le_mul_of_nonneg_left hy hstride
  rw [Int.mul_add, Int.mul_one] at hnext
  omega

/-- Every row lies inside the buffer. -/
theorem SurfaceFits.row_subset (h : SurfaceFits width height bytesPerPixel stride len)
    (hy : y ∈ Set.Ico 0 height) (hstride : 0 ≤ stride) :
    rowBytes width bytesPerPixel stride y ⊆ Set.Ico 0 len := by
  obtain ⟨hy₀, hy₁⟩ := hy
  have hbegin : 0 ≤ stride * y := Int.mul_nonneg hstride hy₀
  have hend := h.row_end_le hy₁ hstride
  have hlen := h.rows_le_len
  exact Set.Ico_subset_Ico hbegin (hend.trans hlen)

/-- Different rows have no byte in common. -/
theorem SurfaceFits.rows_apart (h : SurfaceFits width height bytesPerPixel stride len)
    (hstride : 0 ≤ stride) :
    (Set.Ico 0 height).PairwiseDisjoint (rowBytes width bytesPerPixel stride) := by
  intro y _ y' _ hne
  change Disjoint (Set.Ico _ _) (Set.Ico _ _)
  rw [Set.Ico_disjoint_Ico]
  obtain hlt | hlt := lt_or_gt_of_ne hne
  · have hend := h.row_end_le hlt hstride
    exact (min_le_left _ _).trans (hend.trans (le_max_right _ _))
  · have hend := h.row_end_le hlt hstride
    exact (min_le_right _ _).trans (hend.trans (le_max_left _ _))

end Rows

/-! ### The code -/

/-- `SwPixelFormat`. -/
inductive SwPixelFormat
  | rgb0
  | bgr0
  | zeroBgr
  | zeroRgb
  | rgb24
  deriving DecidableEq

/-- `SwPixelFormat::bytes_per_pixel`. -/
def SwPixelFormat.bytesPerPixel : SwPixelFormat → ℕ
  | rgb0 | bgr0 | zeroBgr | zeroRgb => 4
  | rgb24 => 3

-- The size check relies on these: a pixel of `rgb24` is packed, the others are padded to a word.
example : [SwPixelFormat.rgb0, .bgr0, .zeroBgr, .zeroRgb, .rgb24].map
    SwPixelFormat.bytesPerPixel = [4, 4, 4, 4, 3] := rfl

/-- `SwPixelFormat::as_cstr`. -/
def SwPixelFormat.asCstr : SwPixelFormat → String
  | rgb0 => "rgb0"
  | bgr0 => "bgr0"
  | zeroBgr => "0bgr"
  | zeroRgb => "0rgb"
  | rgb24 => "rgb24"

/-- The cast `n as usize`: the sign is extended. -/
def asUsize (w : ℕ) (n : Int32) : BitVec w := n.toBitVec.signExtend w

/-- `x.checked_mul(y)`. -/
def checkedMul {w : ℕ} (x y : BitVec w) : Option (BitVec w) :=
  if x.umulOverflow y then none else some (x * y)

/-- `option.ok_or(error)`. -/
def okOr {α : Type} : Option α → Error → Except Error α
  | some a, _ => .ok a
  | none, e => .error e

/-- A `&mut [u8]`: its address and its length. -/
structure ByteSlice (w : ℕ) where
  ptr : BitVec w
  len : BitVec w

/-- `mpv_render_param`, with the type that says what its data is. -/
inductive RenderParam (w : ℕ)
  | swSize (width height : Int32)
  | swFormat (format : String)
  | swStride (stride : BitVec w)
  | swPointer (ptr : BitVec w)
  | invalid
  deriving DecidableEq

namespace RenderInner

/-- The parameters of a software rendering call. -/
def softwareParams {w : ℕ} (width height : Int32) (format : SwPixelFormat) (stride : BitVec w)
    (pixels : ByteSlice w) : List (RenderParam w) :=
  [.swSize width height, .swFormat format.asCstr, .swStride stride, .swPointer pixels.ptr,
    .invalid]

/-- `RenderInner::render_software` up to the call of libmpv. -/
def checkSoftware {w : ℕ} (width height : Int32) (format : SwPixelFormat) (stride : BitVec w)
    (pixels : ByteSlice w) : Except Error (List (RenderParam w)) := do
  let needed ← okOr (checkedMul stride (asUsize w (max height 0))) .invalidParameter
  if width < 0 ∨ height < 0 ∨ pixels.len < needed then
    .error .invalidParameter
  else do
    let minStride ← okOr (checkedMul (asUsize w width) (BitVec.ofNat w format.bytesPerPixel))
      .invalidParameter
    if stride < minStride then
      .error .invalidParameter
    else
      .ok (softwareParams width height format stride pixels)

/-- `RenderInner::render_software`, where `libmpv` is the status of
`mpv_render_context_render` for its parameters. -/
def renderSoftware {w : ℕ} (r : RenderInner) (libmpv : List (RenderParam w) → CInt)
    (width height : Int32) (format : SwPixelFormat) (stride : BitVec w)
    (pixels : ByteSlice w) : Comp (Except Error Unit) :=
  match checkSoftware width height format stride pixels with
  | .error e => pure (.error e)
  | .ok params => r.render (some (libmpv params))

end RenderInner

/-! ### The machine arithmetic -/

section Arithmetic

variable {w : ℕ}

/-- A dimension that is not negative is its own `usize`. -/
theorem toNat_asUsize (hw : 32 ≤ w) {n : Int32} (hn : 0 ≤ n.toInt) :
    ((asUsize w n).toNat : ℤ) = n.toInt := by
  have hmsb : n.toBitVec.msb = false := by
    rw [BitVec.msb_eq_toInt]
    simpa using hn
  rw [asUsize, BitVec.signExtend_eq_setWidth_of_msb_false hmsb,
    BitVec.toNat_setWidth_of_le hw, ← BitVec.toInt_eq_toNat_of_msb hmsb]
  rfl

/-- `height.max(0)`, over the integers. -/
theorem toInt_max_zero (n : Int32) : (max n 0).toInt = max n.toInt 0 := by
  change (if n ≤ 0 then 0 else n : Int32).toInt = _
  have hzero : (0 : Int32).toInt = 0 := rfl
  split
  · next h =>
      have hle := Int32.le_iff_toInt_le.mp h
      omega
  · next h =>
      have hlt : ¬ n.toInt ≤ (0 : Int32).toInt := fun hle => h (Int32.le_iff_toInt_le.mpr hle)
      omega

/-- Comparing a checked product with a `usize` compares the product of the numbers. -/
theorem checkedMul_le_iff {x y z : BitVec w} :
    (∃ p, checkedMul x y = some p ∧ p ≤ z) ↔ x.toNat * y.toNat ≤ z.toNat := by
  rw [checkedMul, BitVec.umulOverflow]
  by_cases hlt : x.toNat * y.toNat < 2 ^ w
  · have hmul : (x * y).toNat = x.toNat * y.toNat := by
      rw [BitVec.toNat_mul, Nat.mod_eq_of_lt hlt]
    simp [hlt, BitVec.le_def, hmul]
  · have hz := z.isLt
    have hover : ¬ x.toNat * y.toNat ≤ z.toNat := by omega
    simp [hlt, hover]

/-- The pixel sizes are small enough for every `usize`. -/
theorem toNat_bytesPerPixel (hw : 32 ≤ w) (format : SwPixelFormat) :
    (BitVec.ofNat w format.bytesPerPixel).toNat = format.bytesPerPixel := by
  have hpow : 2 ^ 32 ≤ 2 ^ w := Nat.pow_le_pow_right (by decide) hw
  have hsmall : format.bytesPerPixel ≤ 4 := by cases format <;> decide
  rw [BitVec.toNat_ofNat, Nat.mod_eq_of_lt (by omega)]

end Arithmetic

/-! ### The check -/

namespace RenderInner

variable {w : ℕ} {width height : Int32} {format : SwPixelFormat} {stride : BitVec w}
  {pixels : ByteSlice w}

/-- The rows fit in the buffer when their checked size does. -/
theorem needed_le_iff (hw : 32 ≤ w) (hheight : 0 ≤ height.toInt) :
    (∃ needed, checkedMul stride (asUsize w (max height 0)) = some needed ∧
      needed ≤ pixels.len) ↔ (stride.toNat : ℤ) * height.toInt ≤ pixels.len.toNat := by
  have hmax : (max height 0).toInt = height.toInt := by
    rw [toInt_max_zero, max_eq_left hheight]
  rw [checkedMul_le_iff, ← hmax, ← toNat_asUsize hw (hmax ▸ hheight)]
  norm_cast

/-- A row fits in the stride when its checked size does. -/
theorem minStride_le_iff (hw : 32 ≤ w) (hwidth : 0 ≤ width.toInt) :
    (∃ minStride, checkedMul (asUsize w width) (BitVec.ofNat w format.bytesPerPixel) =
      some minStride ∧ minStride ≤ stride) ↔
      width.toInt * format.bytesPerPixel ≤ (stride.toNat : ℤ) := by
  rw [checkedMul_le_iff, toNat_bytesPerPixel hw, ← toNat_asUsize hw hwidth]
  norm_cast

/-- `render_software` gets to libmpv exactly when the surface fits in the buffer. -/
theorem checkSoftware_eq (hw : 32 ≤ w) :
    checkSoftware width height format stride pixels =
      if SurfaceFits width.toInt height.toInt format.bytesPerPixel stride.toNat
        pixels.len.toNat
      then .ok (softwareParams width height format stride pixels)
      else .error .invalidParameter := by
  split
  · next h =>
      obtain ⟨needed, hneeded, hlen⟩ := (needed_le_iff hw h.height_nonneg).mpr h.rows_le_len
      obtain ⟨minStride, hmin, hstride⟩ :=
        (minStride_le_iff hw h.width_nonneg).mpr h.row_le_stride
      have hwidth : ¬ width < 0 := by
        rw [Int32.lt_iff_toInt_lt]
        exact Int.not_lt.mpr h.width_nonneg
      have hheight : ¬ height < 0 := by
        rw [Int32.lt_iff_toInt_lt]
        exact Int.not_lt.mpr h.height_nonneg
      have hguard : ¬ (width < 0 ∨ height < 0 ∨ pixels.len < needed) :=
        not_or.mpr ⟨hwidth, not_or.mpr ⟨hheight, BitVec.not_lt.mpr hlen⟩⟩
      simp only [checkSoftware, hneeded, hmin, okOr, bind, Except.bind]
      rw [if_neg hguard, if_neg (BitVec.not_lt.mpr hstride)]
  · next h =>
      rw [checkSoftware]
      cases hneeded : checkedMul stride (asUsize w (max height 0)) with
      | none => rfl
      | some needed =>
          simp only [okOr, bind, Except.bind]
          split
          · rfl
          · next hguard =>
              obtain ⟨hwidth, hrest⟩ := not_or.mp hguard
              obtain ⟨hheight, hlen⟩ := not_or.mp hrest
              have hwidth' : 0 ≤ width.toInt := Int.not_lt.mp fun hlt =>
                hwidth (Int32.lt_iff_toInt_lt.mpr hlt)
              have hheight' : 0 ≤ height.toInt := Int.not_lt.mp fun hlt =>
                hheight (Int32.lt_iff_toInt_lt.mpr hlt)
              have hrows := (needed_le_iff hw hheight').mp
                ⟨needed, hneeded, BitVec.not_lt.mp hlen⟩
              cases hmin : checkedMul (asUsize w width)
                  (BitVec.ofNat w format.bytesPerPixel) with
              | none => rfl
              | some minStride =>
                  simp only
                  rw [if_pos]
                  refine BitVec.not_le.mp fun hstride => h ⟨hwidth', hheight', ?_, hrows⟩
                  exact (minStride_le_iff hw hwidth').mp ⟨minStride, hmin, hstride⟩

/-- A software rendering call is a rendering call whose arguments are refused unless the
surface fits. -/
theorem renderSoftware_eq (hw : 32 ≤ w) (r : RenderInner)
    (libmpv : List (RenderParam w) → CInt) :
    r.renderSoftware libmpv width height format stride pixels =
      r.render (if SurfaceFits width.toInt height.toInt format.bytesPerPixel stride.toNat
          pixels.len.toNat
        then some (libmpv (softwareParams width height format stride pixels))
        else none) := by
  rw [renderSoftware, checkSoftware_eq hw]
  by_cases h : SurfaceFits width.toInt height.toInt format.bytesPerPixel stride.toNat
      pixels.len.toNat
  · rw [if_pos h, if_pos h]
  · rw [if_neg h, if_neg h]
    rfl

end RenderInner

open RenderInner in
/-- **Software rendering stays inside the buffer.** On a machine whose `usize` has at least
32 bits, `render_software` calls libmpv, with the parameters of the surface, if and only if
the surface fits in the buffer over the integers; otherwise it returns `InvalidParameter`
and does nothing. So whenever libmpv is called, every row lies inside the buffer and no
two rows share a byte. -/
theorem render_software_bounded {w : ℕ} (hw : 32 ≤ w) (r : RenderInner)
    (libmpv : List (RenderParam w) → CInt) (width height : Int32) (format : SwPixelFormat)
    (stride : BitVec w) (pixels : ByteSlice w) (world : World) :
    ((r.renderSoftware libmpv width height format stride pixels world).2.trace =
        world.trace ++ [.render r.raw] ↔
      0 ≤ width.toInt ∧ 0 ≤ height.toInt ∧
        width.toInt * format.bytesPerPixel ≤ stride.toNat ∧
        stride.toNat * height.toInt ≤ pixels.len.toNat) ∧
    ((r.renderSoftware libmpv width height format stride pixels world).2.trace ≠
        world.trace ++ [.render r.raw] →
      r.renderSoftware libmpv width height format stride pixels world =
        (.ret (.error .invalidParameter), world)) ∧
    ((r.renderSoftware libmpv width height format stride pixels world).2.trace =
        world.trace ++ [.render r.raw] →
      r.renderSoftware libmpv width height format stride pixels world =
        (.ret ((check (libmpv (softwareParams width height format stride pixels))).map
          fun _ => ()), world.log [.render r.raw]) ∧
      (∀ y ∈ Set.Ico 0 height.toInt,
        rowBytes width.toInt format.bytesPerPixel stride.toNat y ⊆
          Set.Ico 0 (pixels.len.toNat : ℤ)) ∧
      (Set.Ico 0 height.toInt).PairwiseDisjoint
        (rowBytes width.toInt format.bytesPerPixel stride.toNat)) := by
  have hstride : (0 : ℤ) ≤ stride.toNat := Int.natCast_nonneg _
  have hquiet : world.trace ≠ world.trace ++ [.render r.raw] := by simp
  rw [renderSoftware_eq hw]
  split
  · next h =>
      refine ⟨⟨fun _ => ?_, fun _ => rfl⟩, fun hne => absurd rfl hne, fun _ => ?_⟩
      · exact ⟨h.width_nonneg, h.height_nonneg, h.row_le_stride, h.rows_le_len⟩
      · exact ⟨rfl, fun y hy => h.row_subset hy hstride, h.rows_apart hstride⟩
  · next h =>
      refine ⟨⟨fun hcall => absurd hcall hquiet, ?_⟩, fun _ => rfl, fun hcall => ?_⟩
      · rintro ⟨hwidth, hheight, hrow, hrows⟩
        exact absurd ⟨hwidth, hheight, hrow, hrows⟩ h
      · exact absurd hcall hquiet

/-- A surface that fills its buffer to the last byte is rendered. -/
theorem render_software_bounded_full :
    ((RenderInner.mk 0 none 0).renderSoftware (fun _ => mpvErrorSuccess) 64 64 .rgb0
      (256 : BitVec 64) ⟨4096, 16384⟩ {}).2.trace = [.render 0] :=
  (render_software_bounded (by decide) ⟨0, none, 0⟩ _ 64 64 .rgb0 256 ⟨4096, 16384⟩ {}).1.mpr
    (by decide)

end Rsmpv
