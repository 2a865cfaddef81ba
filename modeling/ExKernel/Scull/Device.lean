import ExKernel.Scull.Ioctl
import Mathlib.Logic.Function.Basic

/-!
# The bare scull device

A scull device is a list of quantum sets. Each has, once something was written to it, an array of
`qset` pointers to quanta of `quantum` bytes, which are allocated when they are first written. The
byte at a position is found by division: the position divided by the size of a set gives the set,
and the rest divided by the quantum gives the quantum and the offset in it.

The two numbers, the geometry of the device, are taken from the module parameters when the device is
emptied. The methods `scull_read` and `scull_write` read them from the device before they take the
lock, so the sections that they run under it (`scullReadLocked`, `scullWriteLocked`) have them as
arguments.

An access outside an allocated block, and a division by zero, is a step that the model does not
make: the function answers `none`.

## Main definitions

* `Scull.QSet`, `Scull.ScullDev`: `struct scull_qset` and `struct scull_dev`.
* `Scull.scullTrim`, `Scull.scullFollow`.
* `Scull.locate`: the place of a position.
* `Scull.scullReadLocked`, `Scull.scullWriteLocked`, `Scull.scullLlseek`.

## References

* `ldd/scull/main.c`, lines 58–83, 240–389 and 524–548; `ldd/scull/scull.h`, lines 82–95.
-/

namespace ExKernel.Scull

/-- A quantum: an allocated block of bytes. -/
abbrev Quantum : Type := Block UInt8

/-- The array of a quantum set: an allocated block of pointers to quanta, `none` for `NULL`. -/
abbrev QArray : Type := Block (Option Quantum)

/-- `struct scull_qset`, without the link to the next one; `id` is the identity of its
allocation. -/
structure QSet where
  id : ℕ
  data : Option QArray

/-- `struct scull_dev`, without the access key, the lock and the character device; the linked list
of quantum sets is a list. -/
structure ScullDev where
  data : List QSet
  quantum : Int32
  qset : Int32
  size : ℕ

/-- The device as `scull_init_module` leaves it.

Source: `ldd/scull/main.c`, lines 647–652. -/
def ScullDev.init (p : Params) : ScullDev := ⟨[], p.quantum, p.qset, 0⟩

/-! ### Emptying the device -/

/-- The release of the quanta of an array: `kfree(dptr->data[i])` for `i` below `qset`. -/
def freeQuanta (arr : QArray) (qset : ℕ) (heap : Ledger) : Ledger :=
  (List.range qset).foldl
    (fun heap (i : ℕ) => match arr.cells (i : ℤ) with
      | some q => heap.free q.id
      | none => heap) heap

/-- The release of a list of quantum sets, each with its quanta and its array; an array with fewer
than `qset` entries would be read past its end.

Source: `ldd/scull/main.c`, lines 68–77. -/
def freeQSets (qset : ℕ) : List QSet → Ledger → Option Ledger
  | [], heap => some heap
  | dptr :: next, heap =>
    match dptr.data with
    | none => freeQSets qset next (heap.free dptr.id)
    | some arr =>
      if qset ≤ arr.size then
        freeQSets qset next (((freeQuanta arr qset heap).free arr.id).free dptr.id)
      else none

/-- `scull_trim`.

Source: `ldd/scull/main.c`, lines 62–83. -/
def scullTrim (p : Params) (dev : ScullDev) (heap : Ledger) : Option (ScullDev × Ledger) :=
  (freeQSets dev.qset.toInt.toNat dev.data heap).map fun heap =>
    (⟨[], p.quantum, p.qset, 0⟩, heap)

/-! ### Finding the place of a position -/

/-- The place of a position: the number of its quantum set in the list, the number of its quantum in
the set, and its offset in the quantum. -/
structure Place where
  item : Int32
  sPos : ℤ
  qPos : ℤ

/-- The place of a position, with the divisions as they are made in C.

Source: `ldd/scull/main.c`, lines 300 and 311–313, 344 and 352–354. -/
def locate (quantum qset : Int32) (fPos : ℤ) : Option Place :=
  let itemsize := quantum * qset
  if itemsize = 0 then none
  else
    let rest := Int32.ofInt (fPos.tmod itemsize.toInt)
    some ⟨Int32.ofInt (fPos.tdiv itemsize.toInt), rest.toInt.tdiv quantum.toInt,
      rest.toInt.tmod quantum.toInt⟩

/-- What the allocator has for a call: whether there is memory for the node that is followed by `n`
more, whether there is memory for an array, and what a fresh quantum contains. -/
structure AllocEnv where
  node : ℕ → Bool
  array : Bool
  quantum : Option (ℤ → UInt8)

/-- The node in a slot of the list, and the list after it, when a node is allocated for the slot at
the end of the list. -/
def ensureNode (ok : Bool) (slot : List QSet) (heap : Ledger) :
    Option (QSet × List QSet × Ledger) :=
  match slot with
  | dptr :: next => some (dptr, next, heap)
  | [] => if ok then some (⟨heap.next, none⟩, [], heap.alloc) else none

/-- `scull_follow`: whether the slot `n` of the list is reached, and the list afterwards.

Source: `ldd/scull/main.c`, lines 264–288. -/
def scullFollow (answer : ℕ → Bool) (n : ℕ) (slot : List QSet) (heap : Ledger) :
    Bool × List QSet × Ledger :=
  match ensureNode (answer n) slot heap with
  | none => (false, slot, heap)
  | some (dptr, next, heap) =>
    match n with
    | 0 => (true, dptr :: next, heap)
    | n + 1 =>
      let out := scullFollow answer n next heap
      (out.1, dptr :: out.2.1, out.2.2)

/-- The number of rounds of the loop `while (n--)` on an `int`. -/
def rounds (n : Int32) : ℕ := n.toUInt32.toNat

/-! ### Data management -/

/-- What a call answers and leaves: its return value and the bytes that it delivered or accepted,
and the position, the device and the heap after it. -/
structure IoResult where
  ret : ℤ
  bytes : List UInt8
  fPos : ℤ
  dev : ScullDev
  heap : Ledger

/-- The number of bytes up to the end of a quantum.

Source: `ldd/scull/main.c`, lines 322–323 and 371–372. -/
def clamp (quantum : Int32) (qPos : ℤ) (count : ℕ) : ℕ :=
  if count > sizeT (quantum.toInt - qPos) then sizeT (quantum.toInt - qPos) else count

/-- The number of bytes up to the end of the data.

Source: `ldd/scull/main.c`, lines 307–308. -/
def upToSize (dev : ScullDev) (fPos : ℤ) (count : ℕ) : ℕ :=
  if sizeT (fPos + count) > dev.size then sizeT (dev.size - fPos) else count

/-- The part of `scull_read` that runs under the lock, with the geometry read before; `room` bytes
of the caller's buffer can be written.

Source: `ldd/scull/main.c`, lines 305–335. -/
def scullReadLocked (quantum qset : Int32) (dev : ScullDev) (heap : Ledger) (fPos : ℤ)
    (count room : ℕ) (env : AllocEnv) : Option IoResult :=
  if sizeT fPos ≥ dev.size then some ⟨0, [], fPos, dev, heap⟩
  else
    let count := upToSize dev fPos count
    (locate quantum qset fPos).bind fun place =>
      let got := scullFollow env.node (rounds place.item) dev.data heap
      let dev := { dev with data := got.2.1 }
      let hole : IoResult := ⟨0, [], fPos, dev, got.2.2⟩
      if got.1 then
        (got.2.1[rounds place.item]?).bind fun dptr =>
          match dptr.data with
          | none => some hole
          | some arr =>
            if arr.Contains place.sPos 1 then
              match arr.cells place.sPos with
              | none => some hole
              | some q =>
                let count := clamp quantum place.qPos count
                if q.Contains place.qPos count then
                  match copyToUser q.cells place.qPos count room with
                  | none => some { hole with ret := -EFAULT }
                  | some bytes => some ⟨count, bytes, loffT (fPos + count), dev, got.2.2⟩
                else none
            else none
      else some hole

/-- The array of a quantum set, allocated if there is none: `qset` entries, all `NULL`.

Source: `ldd/scull/main.c`, lines 360–365. -/
def ensureArray (qset : Int32) (ok : Bool) (data : Option QArray) (heap : Ledger) :
    Option QArray × Ledger :=
  match data with
  | some arr => (some arr, heap)
  | none => kmalloc qset.toInt (if ok then some fun _ => none else none) heap

/-- The quantum of an entry, allocated if there is none.

Source: `ldd/scull/main.c`, lines 366–370. -/
def ensureQuantum (quantum : Int32) (answer : Option (ℤ → UInt8)) (entry : Option Quantum)
    (heap : Ledger) : Option Quantum × Ledger :=
  match entry with
  | some q => (some q, heap)
  | none => kmalloc quantum.toInt answer heap

/-- The device with the array `arr` in the quantum set `n`. -/
def ScullDev.setArray (dev : ScullDev) (n : ℕ) (dptr : QSet) (arr : QArray) : ScullDev :=
  { dev with data := dev.data.set n { dptr with data := some arr } }

/-- The copy of a write into the quantum `q`, and what is left after it.

Source: `ldd/scull/main.c`, lines 371–384. -/
def writeQuantum (quantum : Int32) (dev : ScullDev) (heap : Ledger) (fPos : ℤ) (place : Place)
    (dptr : QSet) (arr : QArray) (q : Quantum) (count : ℕ) (src : UserBuffer) : Option IoResult :=
  let count := clamp quantum place.qPos count
  if q.Contains place.qPos count then
    let copy := copyFromUser q.cells place.qPos src count
    let cells := Function.update arr.cells place.sPos (some { q with cells := copy.2 })
    let dev' := dev.setArray (rounds place.item) dptr { arr with cells := cells }
    if copy.1 then
      let fPos := loffT (fPos + count)
      let size := if dev.size < sizeT fPos then sizeT fPos else dev.size
      some ⟨count, src.bytes.take count, fPos, { dev' with size := size }, heap⟩
    else some ⟨-EFAULT, [], fPos, dev', heap⟩
  else none

/-- The part of `scull_write` that runs under the lock, with the geometry read before.

Source: `ldd/scull/main.c`, lines 349–388. -/
def scullWriteLocked (quantum qset : Int32) (dev : ScullDev) (heap : Ledger) (fPos : ℤ)
    (count : ℕ) (src : UserBuffer) (env : AllocEnv) : Option IoResult :=
  (locate quantum qset fPos).bind fun place =>
    let got := scullFollow env.node (rounds place.item) dev.data heap
    let dev := { dev with data := got.2.1 }
    if got.1 then
      (got.2.1[rounds place.item]?).bind fun dptr =>
        let array := ensureArray qset env.array dptr.data got.2.2
        match array.1 with
        | none => some ⟨-ENOMEM, [], fPos, dev, array.2⟩
        | some arr =>
          if arr.Contains place.sPos 1 then
            let entry := ensureQuantum quantum env.quantum (arr.cells place.sPos) array.2
            match entry.1 with
            | none =>
              some ⟨-ENOMEM, [], fPos, dev.setArray (rounds place.item) dptr arr, entry.2⟩
            | some q => writeQuantum quantum dev entry.2 fPos place dptr arr q count src
          else none
    else some ⟨-ENOMEM, [], fPos, dev, got.2.2⟩

/-- `scull_llseek`: the return value and the position afterwards.

Source: `ldd/scull/main.c`, lines 524–548. -/
def scullLlseek (dev : ScullDev) (fPos : ℤ) (off : Int64) (whence : Int32) : ℤ × ℤ :=
  let newpos :=
    if whence = 0 then some off.toInt
    else if whence = 1 then some (loffT (fPos + off.toInt))
    else if whence = 2 then some (loffT (dev.size + off.toInt))
    else none
  match newpos with
  | none => (-EINVAL, fPos)
  | some newpos => if newpos < 0 then (-EINVAL, fPos) else (newpos, newpos)

end ExKernel.Scull
