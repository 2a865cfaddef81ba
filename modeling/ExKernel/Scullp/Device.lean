import ExKernel.Scull.Device
import ExKernel.Scullp.Ioctl

/-!
# The scullp device

A scullp device is a scull device whose quanta are blocks of pages. The geometry is the order of the
blocks, a quantum being `PAGE_SIZE << order` bytes, and the number of blocks in a quantum set. The
list items are devices themselves: the first one is the device, and the others are allocated when
the list is followed and cleared, so that their order is 0. The size of a quantum is computed from
the order of the device, but a block is allocated with the order of the list item it belongs to.

A device also counts its mappings, and is not emptied as long as it has one.

An access outside an allocated block, a division by zero, a shift by a number that is no shift count
and an access through a null pointer is a step that the model does not make: the function answers
`none`.

## Main definitions

* `Scullp.ScullpItem`, `Scullp.ScullpDev`: `struct scullp_dev`, as a list item and as a device.
* `Scullp.scullpTrim`, `Scullp.scullpFollow`.
* `Scullp.reachPages`: the part of a write up to the copy.
* `Scullp.scullpRead`, `Scullp.scullpWrite`, `Scullp.scullpLlseek`.
* `Scullp.scullpVmaOpen`, `Scullp.scullpVmaClose`, `Scullp.scullpMmap`.

## References

* `ldd/scullp/main.c`, lines 117–263, 363–387 and 413–441; `ldd/scullp/mmap.c`, lines 33–45 and
  106–119; `ldd/scullp/scullp.h`, lines 56–65.
-/

namespace ExKernel.Scullp

open Scull (Quantum QArray Place AllocEnv locate rounds clamp ensureArray freeQuanta)

/-- `PAGE_SIZE`. -/
def PAGE_SIZE : ℕ := 4096

/-- The number of bytes of a block of pages of the given order. -/
def pageBytes (order : Int32) : ℕ := PAGE_SIZE * 2 ^ order.toInt.toNat

/-- `int quantum = PAGE_SIZE << order`, a shift of an `unsigned long`.

Source: `ldd/scullp/main.c`, lines 168 and 216. -/
def pageQuantum (order : Int32) : Option Int32 :=
  if 0 ≤ order.toInt ∧ order.toInt < 64 then some (Int32.ofInt (pageBytes order)) else none

/-- What a list item after the first has of `struct scullp_dev`; `id` is the identity of its
allocation. Its other fields are cleared and never read. -/
structure ScullpItem where
  id : ℕ
  data : Option QArray
  order : Int32

/-- `struct scullp_dev`, without the lock and the character device; the linked list of the items
after the first is a list. -/
structure ScullpDev where
  data : Option QArray
  next : List ScullpItem
  vmas : ℤ
  order : Int32
  qset : Int32
  size : ℕ

/-- The block of the array `scullp_devices`, which the module allocates first. -/
def scullpDevices : ℕ := 0

/-- The device as `scullp_init` leaves it.

Source: `ldd/scullp/main.c`, lines 490–496. -/
def ScullpDev.init (p : ScullpParams) : ScullpDev := ⟨none, [], 0, p.order, p.qset, 0⟩

/-- All list items, the device first. -/
def ScullpDev.items (dev : ScullpDev) : List ScullpItem :=
  ⟨scullpDevices, dev.data, dev.order⟩ :: dev.next

/-- The device with the array `arr` in the list item `n`. -/
def ScullpDev.setData (dev : ScullpDev) (n : ℕ) (arr : QArray) : ScullpDev :=
  match n with
  | 0 => { dev with data := some arr }
  | n + 1 => { dev with next := dev.next.modify n fun dptr => { dptr with data := some arr } }

/-! ### Emptying the device -/

/-- The release of the blocks and of the array of a list item; an array with fewer than `qset`
entries would be read past its end.

Source: `ldd/scullp/main.c`, lines 423–432. -/
def freeData (qset : ℕ) (data : Option QArray) (heap : Ledger) : Option Ledger :=
  match data with
  | none => some heap
  | some arr => if qset ≤ arr.size then some ((freeQuanta arr qset heap).free arr.id) else none

/-- The release of the list items after the first, each with its blocks and its array. -/
def freeNext (qset : ℕ) : List ScullpItem → Ledger → Option Ledger
  | [], heap => some heap
  | dptr :: next, heap =>
    (freeData qset dptr.data heap).bind fun heap => freeNext qset next (heap.free dptr.id)

/-- `scullp_trim`: its return value, the device and the heap afterwards.

Source: `ldd/scullp/main.c`, lines 413–441. -/
def scullpTrim (p : ScullpParams) (dev : ScullpDev) (heap : Ledger) :
    Option (ℤ × ScullpDev × Ledger) :=
  if dev.vmas ≠ 0 then some (-EBUSY, dev, heap)
  else
    (freeData dev.qset.toInt.toNat dev.data heap).bind fun heap =>
      (freeNext dev.qset.toInt.toNat dev.next heap).map fun heap =>
        (0, { dev with data := none, next := [], order := p.order, qset := p.qset, size := 0 },
          heap)

/-! ### Data management -/

/-- `scullp_follow` by `n` items: the items after the first, and the heap. A node that cannot be
allocated is cleared all the same, which is an access through a null pointer.

Source: `ldd/scullp/main.c`, lines 146–157. -/
def scullpFollow (answer : ℕ → Bool) (n : ℕ) (next : List ScullpItem) (heap : Ledger) :
    Option (List ScullpItem × Ledger) :=
  match n, next with
  | 0, next => some (next, heap)
  | n + 1, dptr :: next => (scullpFollow answer n next heap).map fun out => (dptr :: out.1, out.2)
  | n + 1, [] =>
    if answer n then
      (scullpFollow answer n [] heap.alloc).map fun out => (⟨heap.next, none, 0⟩ :: out.1, out.2)
    else none

/-- What a call answers and leaves: its return value and the bytes that it delivered or accepted,
and the position, the device and the heap after it. -/
structure ScullpResult where
  ret : ℤ
  bytes : List UInt8
  fPos : ℤ
  dev : ScullpDev
  heap : Ledger

/-- The number of bytes up to the end of the data.

Source: `ldd/scullp/main.c`, lines 178–179. -/
def upToSize (dev : ScullpDev) (fPos : ℤ) (count : ℕ) : ℕ :=
  if sizeT (fPos + count) > dev.size then sizeT (dev.size - fPos) else count

/-- `scullp_read`; `room` bytes of the caller's buffer can be written.

Source: `ldd/scullp/main.c`, lines 163–207. -/
def scullpRead (dev : ScullpDev) (heap : Ledger) (fPos : ℤ) (count room : ℕ) (lockIntr : Bool)
    (env : AllocEnv) : Option ScullpResult :=
  (pageQuantum dev.order).bind fun quantum =>
    if lockIntr then some ⟨-ERESTARTSYS, [], fPos, dev, heap⟩
    else if sizeT fPos > dev.size then some ⟨0, [], fPos, dev, heap⟩
    else
      let count := upToSize dev fPos count
      (locate quantum dev.qset fPos).bind fun place =>
        (scullpFollow env.node (rounds place.item) dev.next heap).bind fun got =>
          let dev := { dev with next := got.1 }
          let hole : ScullpResult := ⟨0, [], fPos, dev, got.2⟩
          (dev.items[rounds place.item]?).bind fun dptr =>
            match dptr.data with
            | none => some hole
            | some arr =>
              if arr.Contains place.sPos 1 then
                match arr.cells place.sPos with
                | none => some hole
                | some q =>
                  let count := clamp quantum place.qPos count
                  if q.Contains place.qPos count then
                    match copyToUser q.cells place.qPos count room with
                    | none => some { hole with ret := -EFAULT }
                    | some bytes => some ⟨count, bytes, loffT (fPos + count), dev, got.2⟩
                  else none
              else none

/-- The block of an entry, allocated and cleared if there is none: `__get_free_pages` with the
order of the list item, and `memset`.

Source: `ldd/scullp/main.c`, lines 239–246. -/
def ensurePages (order : Int32) (answer : Option (ℤ → UInt8)) (entry : Option Quantum)
    (heap : Ledger) : Option Quantum × Ledger :=
  match entry with
  | some q => (some q, heap)
  | none =>
    kmalloc (pageBytes order)
      (answer.map fun contents => Cells.fill contents 0 0 (pageBytes order)) heap

/-- What a write has reached before its copy: the device and the heap, and the array and the block
that the bytes go to, if there was memory for them. -/
structure Reached where
  dev : ScullpDev
  heap : Ledger
  target : Option (QArray × Quantum)

/-- The part of `scullp_write` that finds the block, and allocates what is missing.

Source: `ldd/scullp/main.c`, lines 230–246. -/
def reachPages (dev : ScullpDev) (heap : Ledger) (place : Place) (env : AllocEnv) :
    Option Reached :=
  (scullpFollow env.node (rounds place.item) dev.next heap).bind fun got =>
    let dev := { dev with next := got.1 }
    (dev.items[rounds place.item]?).bind fun dptr =>
      let array := ensureArray dev.qset env.array dptr.data got.2
      match array.1 with
      | none => some ⟨dev, array.2, none⟩
      | some arr =>
        if arr.Contains place.sPos 1 then
          let entry := ensurePages dptr.order env.quantum (arr.cells place.sPos) array.2
          match entry.1 with
          | none => some ⟨dev.setData (rounds place.item) arr, entry.2, none⟩
          | some q =>
            let arr := { arr with cells := Function.update arr.cells place.sPos (some q) }
            some ⟨dev.setData (rounds place.item) arr, entry.2, some (arr, q)⟩
        else none

/-- The copy of a write into the block `q`, and what is left after it.

Source: `ldd/scullp/main.c`, lines 247–262. -/
def writePages (quantum : Int32) (dev : ScullpDev) (heap : Ledger) (fPos : ℤ) (place : Place)
    (arr : QArray) (q : Quantum) (count : ℕ) (src : UserBuffer) : Option ScullpResult :=
  let count := clamp quantum place.qPos count
  if q.Contains place.qPos count then
    let copy := copyFromUser q.cells place.qPos src count
    let cells := Function.update arr.cells place.sPos (some { q with cells := copy.2 })
    let dev' := dev.setData (rounds place.item) { arr with cells := cells }
    if copy.1 then
      let fPos := loffT (fPos + count)
      let size := if dev.size < sizeT fPos then sizeT fPos else dev.size
      some ⟨count, src.bytes.take count, fPos, { dev' with size := size }, heap⟩
    else some ⟨-EFAULT, [], fPos, dev', heap⟩
  else none

/-- `scullp_write`.

Source: `ldd/scullp/main.c`, lines 211–263. -/
def scullpWrite (dev : ScullpDev) (heap : Ledger) (fPos : ℤ) (count : ℕ) (src : UserBuffer)
    (lockIntr : Bool) (env : AllocEnv) : Option ScullpResult :=
  (pageQuantum dev.order).bind fun quantum =>
    if lockIntr then some ⟨-ERESTARTSYS, [], fPos, dev, heap⟩
    else
      (locate quantum dev.qset fPos).bind fun place =>
        (reachPages dev heap place env).bind fun got =>
          match got.target with
          | none => some ⟨-ENOMEM, [], fPos, got.dev, got.heap⟩
          | some (arr, q) => writePages quantum got.dev got.heap fPos place arr q count src

/-- `scullp_llseek`: the return value and the position afterwards.

Source: `ldd/scullp/main.c`, lines 363–387. -/
def scullpLlseek (dev : ScullpDev) (fPos : ℤ) (off : Int64) (whence : Int32) : ℤ × ℤ :=
  let newpos :=
    if whence = 0 then some off.toInt
    else if whence = 1 then some (loffT (fPos + off.toInt))
    else if whence = 2 then some (loffT (dev.size + off.toInt))
    else none
  match newpos with
  | none => (-EINVAL, fPos)
  | some newpos => if newpos < 0 then (-EINVAL, fPos) else (newpos, newpos)

/-! ### Mappings -/

/-- `scullp_vma_open`.

Source: `ldd/scullp/mmap.c`, lines 33–38. -/
def scullpVmaOpen (dev : ScullpDev) : ScullpDev := { dev with vmas := dev.vmas + 1 }

/-- `scullp_vma_close`.

Source: `ldd/scullp/mmap.c`, lines 40–45. -/
def scullpVmaClose (dev : ScullpDev) : ScullpDev := { dev with vmas := dev.vmas - 1 }

/-- `scullp_mmap`: its return value, and the device afterwards.

Source: `ldd/scullp/mmap.c`, lines 106–119. -/
def scullpMmap (dev : ScullpDev) : ℤ × ScullpDev :=
  if dev.order ≠ 0 then (-ENODEV, dev) else (0, scullpVmaOpen dev)

end ExKernel.Scullp
