import ExKernel.Scullp.Device

/-!
# Seeking

The new position of a seek is a sum of two 64-bit integers that is converted to a signed one, and is
refused if it is negative. A sum that is too large comes out negative, because neither of its parts
is large enough for the conversion to go round to the positive numbers again. So the test for
negative positions is one for overflow, too.

## Main definitions

* `Scullp.seekBase`: what the offset of a seek is added to.
* `Scullp.seekTo`: a seek without conversions.

## Main results

* `Scullp.loffT_neg_iff`: which sums come out negative.
* `Scullp.llseek_exact`: the seeks of both drivers.

## References

* `ldd/scull/main.c`, lines 524–548; `ldd/scullp/main.c`, lines 363–387.
-/

namespace ExKernel.Scullp

open Scull

/-- What the offset is added to, for the three values of `whence` that there are. -/
def seekBase (size : ℕ) (fPos : ℤ) (whence : Int32) : Option ℤ :=
  if whence = 0 then some 0
  else if whence = 1 then some fPos
  else if whence = 2 then some size
  else none

/-- A seek by the offset `off`, as integers without bounds: the return value and the position
afterwards. -/
def seekTo (base : Option ℤ) (fPos off : ℤ) : ℤ × ℤ :=
  match base with
  | none => (-EINVAL, fPos)
  | some base =>
    if 0 ≤ base + off ∧ base + off < 2 ^ 63 then (base + off, base + off) else (-EINVAL, fPos)

/-- **Overflow comes out negative.** Of the sum of a 64-bit integer and one that is not negative,
converted to a signed integer. -/
theorem loffT_neg_iff {x : ℤ} (h : -2 ^ 63 ≤ x) (h' : x < 2 ^ 64) :
    loffT x < 0 ↔ ¬ (0 ≤ x ∧ x < 2 ^ 63) := by
  rw [loffT, Int.bmod_def]
  split_ifs <;> omega

theorem seekTo_some {base fPos off : ℤ} (hbase : 0 ≤ base) (hbase' : base < 2 ^ 63)
    (hoff : -2 ^ 63 ≤ off) (hoff' : off < 2 ^ 63) :
    seekTo (some base) fPos off =
      if loffT (base + off) < 0 then (-EINVAL, fPos)
      else (loffT (base + off), loffT (base + off)) := by
  have hneg := loffT_neg_iff (x := base + off) (by omega) (by omega)
  rw [seekTo]
  by_cases hfits : 0 ≤ base + off ∧ base + off < 2 ^ 63
  · rw [if_pos hfits, if_neg fun h => hneg.mp h hfits, loffT_of_range (by omega) hfits.2]
  · rw [if_neg hfits, if_pos (hneg.mpr hfits)]

/-- **Seeking is exact.** For every position, size, offset and `whence`, the two drivers return the
same and leave the same position: the sum, if it is a position, and otherwise an error and the
position as it was.

Source: `ldd/scull/main.c`, lines 524–548; `ldd/scullp/main.c`, lines 363–387. -/
theorem llseek_exact (dev : ScullDev) (devp : ScullpDev) (fPos : ℤ) (off : Int64) (whence : Int32)
    (hpos : 0 ≤ fPos) (hpos' : fPos < 2 ^ 63) (hsize : dev.size < 2 ^ 63)
    (hsame : devp.size = dev.size) :
    scullLlseek dev fPos off whence = seekTo (seekBase dev.size fPos whence) fPos off.toInt ∧
      scullpLlseek devp fPos off whence = scullLlseek dev fPos off whence := by
  have hoff := off.le_toInt
  have hoff' := off.toInt_lt
  constructor
  · rw [scullLlseek, seekBase]
    split_ifs with hset hcur hend
    · rw [seekTo_some le_rfl (by decide) hoff hoff', zero_add, loffT_of_range hoff hoff']
    · exact (seekTo_some hpos hpos' hoff hoff').symm
    · exact (seekTo_some (by omega) (by omega) hoff hoff').symm
    · rfl
  · rewrite [scullpLlseek, scullLlseek, hsame]
    rfl

/-- From the end of a device of two bytes by the greatest offset: the sum does not fit, and the
position stays. -/
theorem llseek_exact_overflow :
    scullLlseek ⟨[], 4000, 1000, 2⟩ 5 (Int64.ofInt (2 ^ 63 - 1)) 2 = (-EINVAL, 5) ∧
      scullpLlseek ⟨none, [], 0, 0, 500, 2⟩ 5 (Int64.ofInt (2 ^ 63 - 1)) 2 = (-EINVAL, 5) := by
  have hexact := llseek_exact ⟨[], 4000, 1000, 2⟩ ⟨none, [], 0, 0, 500, 2⟩ 5
    (Int64.ofInt (2 ^ 63 - 1)) 2 (by decide) (by decide) (by decide) rfl
  have hseek : seekTo (seekBase 2 5 2) 5 (Int64.ofInt (2 ^ 63 - 1)).toInt = (-EINVAL, 5) := by
    decide
  exact ⟨hexact.1.trans hseek, hexact.2.trans (hexact.1.trans hseek)⟩

end ExKernel.Scullp
