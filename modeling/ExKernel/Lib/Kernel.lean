import ExKernel.Lib.Cells
import ExKernel.Lib.Ledger

/-!
# What drivers take from the kernel

Error numbers, the conversions between C integer types, the copies between kernel and user memory,
and `kmalloc`, as far as drivers rely on them. Nothing here is about a particular driver.

* A C `int` that is kept in a variable is an `Int32`; a 64-bit quantity is an integer, with `sizeT`
  and `loffT` for the conversions to `size_t` and `loff_t` on a 64-bit kernel.
* `kmalloc` is told by its caller's environment whether memory is available, and then what the fresh
  block contains; a negative size, which as a `size_t` is above every limit of the allocator, fails.
* The caller of a system call has a buffer of which a prefix can be read or written. A copy that
  runs into the inaccessible part fails; what a failed copy leaves in the kernel beyond the bytes it
  moved is arbitrary (`UserBuffer.residue`).

## Main definitions

* `sizeT`, `loffT`, `intMax`, `maxRwCount`.
* `kmalloc`.
* `UserBuffer`, `copyFromUser`, `copyToUser`.
-/

namespace ExKernel

/-! ### Error numbers -/

def EPERM : ℤ := 1
def EIO : ℤ := 5
def EAGAIN : ℤ := 11
def ENOMEM : ℤ := 12
def EFAULT : ℤ := 14
def EBUSY : ℤ := 16
def ENODEV : ℤ := 19
def EINVAL : ℤ := 22
def ENOTTY : ℤ := 25
def ERESTARTSYS : ℤ := 512

/-! ### Integer types -/

/-- `INT_MAX`. -/
def intMax : ℕ := 2 ^ 31 - 1

/-- `MAX_RW_COUNT`, the bound that the file system layer puts on the size of a transfer:
`INT_MAX & PAGE_MASK`. -/
def maxRwCount : ℕ := 0x7ffff000

/-- Conversion to `size_t` or `unsigned long`. -/
def sizeT (x : ℤ) : ℕ := (x % 2 ^ 64).toNat

/-- Conversion to `loff_t` or `long`. -/
def loffT (x : ℤ) : ℤ := x.bmod (2 ^ 64)

theorem sizeT_of_nonneg {x : ℤ} (h : 0 ≤ x) (h' : x < 2 ^ 64) : sizeT x = x.toNat := by
  rw [sizeT, Int.emod_eq_of_lt h h']

theorem loffT_of_range {x : ℤ} (h : -2 ^ 63 ≤ x) (h' : x < 2 ^ 63) : loffT x = x :=
  Int.bmod_eq_of_le (by omega) (by omega)

theorem sizeT_natCast {x : ℕ} (h : x < 2 ^ 64) : sizeT (x : ℤ) = x := by
  rw [sizeT_of_nonneg (by omega) (by omega), Int.toNat_natCast]

theorem loffT_natCast {x : ℕ} (h : x < 2 ^ 63) : loffT (x : ℤ) = x :=
  loffT_of_range (by omega) (by omega)

/-- A `size_t` is no larger than the value converted, if that was not negative. -/
theorem sizeT_le {x : ℤ} (h : 0 ≤ x) : (sizeT x : ℤ) ≤ x := by
  unfold sizeT
  omega

/-! ### Allocation -/

/-- `kmalloc(size, GFP_KERNEL)`, where `answer` is `none` when no memory is available and otherwise
what the fresh block contains. -/
def kmalloc {α : Type*} (size : ℤ) (answer : Option (ℤ → α)) (heap : Ledger) :
    Option (Block α) × Ledger :=
  if size < 0 then (none, heap)
  else match answer with
    | none => (none, heap)
    | some contents => (some ⟨heap.next, size.toNat, contents⟩, heap.alloc)

/-! ### Copies between kernel and user memory -/

/-- The buffer of the caller of a write: the bytes that can be read, and what a copy that fails on
the byte after them leaves in the destination behind the bytes it moved. -/
structure UserBuffer where
  bytes : List UInt8
  residue : List UInt8 := []

/-- `copy_from_user(m + off, src, count)`: whether all was copied, and the memory afterwards. -/
def copyFromUser (m : ℤ → UInt8) (off : ℤ) (src : UserBuffer) (count : ℕ) :
    Bool × (ℤ → UInt8) :=
  if count ≤ src.bytes.length then (true, Cells.store m off (src.bytes.take count))
  else (false, Cells.store m off ((src.bytes ++ src.residue).take count))

/-- The bytes that a copy moves or leaves. -/
def UserBuffer.copied (src : UserBuffer) (count : ℕ) : List UInt8 :=
  if count ≤ src.bytes.length then src.bytes.take count
  else (src.bytes ++ src.residue).take count

theorem copyFromUser_snd (m : ℤ → UInt8) (off : ℤ) (src : UserBuffer) (count : ℕ) :
    (copyFromUser m off src count).2 = Cells.store m off (src.copied count) := by
  unfold copyFromUser UserBuffer.copied
  split_ifs <;> rfl

/-- `copy_to_user(buf, m + off, count)` into a buffer of which `room` bytes can be written: the
bytes delivered, or `none` when the copy fails. -/
def copyToUser (m : ℤ → UInt8) (off : ℤ) (count room : ℕ) : Option (List UInt8) :=
  if count ≤ room then some (Cells.load m off count) else none

end ExKernel
