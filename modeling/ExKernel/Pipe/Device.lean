import ExKernel.Lib.RingBuffer
import ExKernel.Scull.Ioctl

/-!
# The scullpipe device

A scullpipe is a fifo in a circular buffer. The buffer is allocated by the first open and released
by the last close; `rp` and `wp` are where the next byte is read and written. Pointers into the
buffer are offsets from `dev->buffer`.

This file has the sections that the methods run under `dev->lock` (`scullPOpenLocked`,
`scullPReleaseLocked`, `scullPReadLocked`, `scullPWriteLocked`) and, over them, the methods as
atomic calls. A blocking call on a pipe that is not ready releases the lock and sleeps. When it is
woken up it does from there exactly what a fresh call does from its first line: it takes the lock,
and may be interrupted at that, and tests the pipe again. So a call that sleeps is answered
`asleep`, and its continuation is a further call. The interleaving of the single steps of many
processes is `ExKernel.Pipe.Protocol`.

A reply records, besides the return value, the bytes that were transferred and the range of buffer
offsets that the copy touched.

## Main definitions

* `Pipe.ScullPipe`: `struct scull_pipe`.
* `Pipe.spacefree`, `Pipe.readCount`, `Pipe.writeCount`.
* `Pipe.scullPOpenLocked`, `Pipe.scullPReleaseLocked`, `Pipe.scullPReadLocked`,
  `Pipe.scullPWriteLocked`: the sections under the lock.
* `Pipe.scullPRead`, `Pipe.scullPWrite`: the calls.
* `Pipe.ScullPipe.unread`: the bytes that are in the pipe.

## Main results

* `Pipe.scullPOpenLocked_cases`: the three outcomes of an open.

## References

* `ldd/scull/pipe.c`, lines 36–45 and 64–229.
-/

namespace ExKernel.Pipe

open Cells

/-- `struct scull_pipe`, without the lock, the wait queues, the list of asynchronous readers and the
character device. Pointers into the buffer are offsets from `buffer`. The two counters are not
bounded: a pipe is never opened by `2 ^ 31` files at once. -/
structure ScullPipe where
  /-- `buffer`, `none` for `NULL`. -/
  buffer : Option (Block UInt8)
  /-- `end`. -/
  bufEnd : ℤ
  buffersize : Int32
  rp : ℤ
  wp : ℤ
  nreaders : ℤ
  nwriters : ℤ

/-- The device as `scull_p_init` leaves it: all zero.

Source: `ldd/scull/pipe.c`, line 358. -/
def ScullPipe.zero : ScullPipe := ⟨none, 0, 0, 0, 0, 0, 0⟩

/-- The part of `f_mode` that the driver looks at: `FMODE_READ` and `FMODE_WRITE`. -/
structure FMode where
  read : Bool
  write : Bool
  deriving DecidableEq

/-! ### Open and close -/

/-- What every successful open does to the device once there is a buffer `b`: it takes the buffer
size from the module parameter, sets both pointers to the beginning and counts the file.

Source: `ldd/scull/pipe.c`, lines 81–89. -/
def ScullPipe.opened (dev : ScullPipe) (pBuffer : Int32) (mode : FMode) (b : Block UInt8) :
    ScullPipe where
  buffer := some b
  buffersize := pBuffer
  bufEnd := pBuffer.toInt
  rp := 0
  wp := 0
  nreaders := if mode.read then dev.nreaders + 1 else dev.nreaders
  nwriters := if mode.write then dev.nwriters + 1 else dev.nwriters

/-- The part of `scull_p_open` that runs under the lock: the return value, the device and the heap
afterwards. `answer` is what `kmalloc` finds for the buffer.

Source: `ldd/scull/pipe.c`, lines 73–92. -/
def scullPOpenLocked (pBuffer : Int32) (mode : FMode) (answer : Option (ℤ → UInt8))
    (dev : ScullPipe) (heap : Ledger) : ℤ × ScullPipe × Ledger :=
  let got := match dev.buffer with
    | some b => (some b, heap)
    | none => kmalloc pBuffer.toInt answer heap
  match got.1 with
  | none => (-ENOMEM, { dev with buffer := none }, got.2)
  | some b => (0, dev.opened pBuffer mode b, got.2)

/-- The part of `scull_p_release` that runs under the lock.

Source: `ldd/scull/pipe.c`, lines 104–111. -/
def scullPReleaseLocked (mode : FMode) (dev : ScullPipe) (heap : Ledger) : ScullPipe × Ledger :=
  let nreaders := if mode.read then dev.nreaders - 1 else dev.nreaders
  let nwriters := if mode.write then dev.nwriters - 1 else dev.nwriters
  if nreaders + nwriters = 0 then
    ({ dev with buffer := none, nreaders := nreaders, nwriters := nwriters },
      match dev.buffer with
      | some b => heap.free b.id
      | none => heap)
  else ({ dev with nreaders := nreaders, nwriters := nwriters }, heap)

/-! ### Data management -/

/-- How much space is free?

Source: `ldd/scull/pipe.c`, lines 184–189. -/
def spacefree (dev : ScullPipe) : ℤ :=
  if dev.rp = dev.wp then (dev.buffersize - 1).toInt
  else (Int32.ofInt
    ((dev.rp + dev.buffersize.toInt - dev.wp).tmod dev.buffersize.toInt - 1)).toInt

/-- The number of bytes that `scull_p_read` copies.

Source: `ldd/scull/pipe.c`, lines 141–144. -/
def readCount (dev : ScullPipe) (count : ℕ) : ℕ :=
  if dev.wp > dev.rp then min count (sizeT (dev.wp - dev.rp))
  else min count (sizeT (dev.bufEnd - dev.rp))

/-- The number of bytes that `scull_p_write` copies.

Source: `ldd/scull/pipe.c`, lines 206–210. -/
def writeCount (dev : ScullPipe) (count : ℕ) : ℕ :=
  let count := min count (sizeT (spacefree dev))
  if dev.wp ≥ dev.rp then min count (sizeT (dev.bufEnd - dev.wp))
  else min count (sizeT (dev.rp - dev.wp - 1))

/-- What a call answers: its return value, or `none` while it sleeps; the bytes that it delivered to
the user or accepted from it; and the range of buffer offsets that it copied from or to. -/
structure Reply where
  ret : Option ℤ
  data : List UInt8 := []
  off : ℤ := 0
  len : ℕ := 0

/-- The answer of a call that returns without touching the buffer. -/
def Reply.code (v : ℤ) : Reply := { ret := some v }

/-- The answer of a call that sleeps. -/
def Reply.asleep : Reply := { ret := none }

/-- The part of `scull_p_read` that runs under the lock once there is data, in the buffer `b`.
`room` bytes of the caller's buffer can be written.

Source: `ldd/scull/pipe.c`, lines 141–157. -/
def scullPReadLocked (dev : ScullPipe) (b : Block UInt8) (count room : ℕ) : Reply × ScullPipe :=
  let count := readCount dev count
  match copyToUser b.cells dev.rp count room with
  | none => ({ ret := some (-EFAULT), off := dev.rp, len := count }, dev)
  | some bytes =>
    ({ ret := some count, data := bytes, off := dev.rp, len := count },
      { dev with rp := RingBuffer.advance dev.bufEnd dev.rp count })

/-- The part of `scull_p_write` that runs under the lock once there is space, in the buffer `b`.

Source: `ldd/scull/pipe.c`, lines 206–228. -/
def scullPWriteLocked (dev : ScullPipe) (b : Block UInt8) (count : ℕ) (src : UserBuffer) :
    Reply × ScullPipe :=
  let count := writeCount dev count
  let copy := copyFromUser b.cells dev.wp src count
  let dev' := { dev with buffer := some { b with cells := copy.2 } }
  if copy.1 then
    ({ ret := some count, data := src.bytes.take count, off := dev.wp, len := count },
      { dev' with wp := RingBuffer.advance dev.bufEnd dev.wp count })
  else ({ ret := some (-EFAULT), off := dev.wp, len := count }, dev')

/-- What a call depends on beyond its arguments: whether taking the lock is interrupted, whether the
file is open with `O_NONBLOCK`, and whether a signal ends the sleep of the call. -/
structure CallEnv where
  lockIntr : Bool
  nonblock : Bool
  signal : Bool

/-- The answer of a call that finds the pipe not ready. -/
def notReady (env : CallEnv) : Reply :=
  if env.nonblock then .code (-EAGAIN)
  else if env.signal then .code (-ERESTARTSYS)
  else .asleep

/-- `scull_p_read`, stuck when there is no buffer to read from.

Source: `ldd/scull/pipe.c`, lines 121–158. -/
def scullPRead (dev : ScullPipe) (env : CallEnv) (count room : ℕ) : Option (Reply × ScullPipe) :=
  if env.lockIntr then some (.code (-ERESTARTSYS), dev)
  else if dev.rp = dev.wp then some (notReady env, dev)
  else dev.buffer.map fun b => scullPReadLocked dev b count room

/-- `scull_p_write`, with `scull_getwritespace`; stuck when there is no buffer to write to.

Source: `ldd/scull/pipe.c`, lines 162–181 and 191–229. -/
def scullPWrite (dev : ScullPipe) (env : CallEnv) (count : ℕ) (src : UserBuffer) :
    Option (Reply × ScullPipe) :=
  if env.lockIntr then some (.code (-ERESTARTSYS), dev)
  else if spacefree dev = 0 then some (notReady env, dev)
  else dev.buffer.map fun b => scullPWriteLocked dev b count src

/-- **What an open can do.** It fails for want of a buffer and changes nothing; or it takes the
buffer that is there; or it allocates one, of the size of the module parameter. -/
theorem scullPOpenLocked_cases (pBuffer : Int32) (mode : FMode) (answer : Option (ℤ → UInt8))
    (dev : ScullPipe) (heap : Ledger) :
    (dev.buffer = none ∧
      scullPOpenLocked pBuffer mode answer dev heap = (-ENOMEM, dev, heap)) ∨
    (∃ b, dev.buffer = some b ∧
      scullPOpenLocked pBuffer mode answer dev heap = (0, dev.opened pBuffer mode b, heap)) ∨
    (∃ contents, dev.buffer = none ∧ 0 ≤ pBuffer.toInt ∧ answer = some contents ∧
      scullPOpenLocked pBuffer mode answer dev heap =
        (0, dev.opened pBuffer mode ⟨heap.next, pBuffer.toInt.toNat, contents⟩, heap.alloc)) := by
  cases hb : dev.buffer with
  | some b => exact Or.inr (Or.inl ⟨b, rfl, by simp [scullPOpenLocked, hb]⟩)
  | none =>
    have hdev : { dev with buffer := none } = dev := by rw [← hb]
    by_cases hneg : pBuffer.toInt < 0
    · exact Or.inl ⟨rfl, by simp [scullPOpenLocked, hb, kmalloc, hneg, hdev]⟩
    · cases answer with
      | none => exact Or.inl ⟨rfl, by simp [scullPOpenLocked, hb, kmalloc, hdev]⟩
      | some contents =>
        exact Or.inr (Or.inr ⟨contents, rfl, not_lt.mp hneg, rfl,
          by simp [scullPOpenLocked, hb, kmalloc, hneg]⟩)

/-! ### The contents of the pipe -/

/-- The ring buffer that the device keeps in the block `b`. -/
def ScullPipe.ring (dev : ScullPipe) (b : Block UInt8) : RingBuffer UInt8 :=
  ⟨b.cells, dev.bufEnd, dev.rp, dev.wp⟩

/-- The bytes that are in the pipe: the cells from `rp` to `wp`, cyclically. -/
def ScullPipe.unread (dev : ScullPipe) : List UInt8 :=
  match dev.buffer with
  | some b => (dev.ring b).queue
  | none => []

end ExKernel.Pipe
