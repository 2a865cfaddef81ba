import ExKernel.Lib.Kernel
import Mathlib.Data.List.SplitLengths

/-!
# Block devices in memory

Four drivers for a block device that is a buffer. A request has a first sector, a direction and a
list of segments, which are pieces of memory, and the drivers copy between the buffer and the
segments, one segment after the other. Three of the drivers keep a position, cut a segment off at
the end of the device, and count the bytes that they have copied; these are one loop, with the cut
of the driver as a parameter. The fourth checks the request as a whole and keeps a pointer.

Positions are 64-bit integers, in part signed and in part not, and are written out with their
conversions. A copy that would leave the buffer or the segment has no result.

## Main definitions

* `Blk.BlockDev`, `Blk.Request`: a device, and a request to it.
* `Blk.clip`, `Blk.segmentLoop`: the cut, and the loop.
* `Blk.Driver.doRequest`, `Blk.Rd.deviceMakeRequest`: the drivers.

## Main results

* `Blk.segmentLoop_write`, `Blk.segmentLoop_read`: what the loop does from a position inside the
  device.
* `Blk.Rd.segmentLoop_write`, `Blk.Rd.segmentLoop_read`: what the loop of the fourth driver does.

## References

* `m_modules/blk_dev/blkdev.c`, lines 15–46; `m_modules/blk_dev/sblkdev.c`, lines 61–91;
  `m_modules/blk_dev/mq-blkdev.c`, lines 59–97; `m_modules/blk_dev/rd.c`, lines 21–65.
-/

namespace ExKernel.Blk

/-! ### Devices and requests -/

def SECTOR_SHIFT : ℕ := 9
def READ : ℕ := 0
def WRITE : ℕ := 1
def READA : ℕ := 2

/-- A device: the number of its sectors and the contents of its buffer. -/
structure BlockDev where
  capacity : ℕ
  data : ℤ → UInt8
  /-- The buffer was allocated. -/
  size_lt : capacity * 2 ^ SECTOR_SHIFT < 2 ^ 63

namespace BlockDev

/-- The number of bytes of the buffer. -/
def size (dev : BlockDev) : ℕ := dev.capacity * 2 ^ SECTOR_SHIFT

/-- `(loff_t)(dev->capacity << SECTOR_SHIFT)`. -/
def devSize (dev : BlockDev) : ℤ := loffT (sizeT (dev.capacity * 2 ^ SECTOR_SHIFT : ℕ))

theorem devSize_eq (dev : BlockDev) : dev.devSize = dev.size := by
  have hlt := dev.size_lt
  rw [devSize, sizeT_natCast (by omega), loffT_natCast hlt, size]

end BlockDev

/-- A request: its first sector, its direction, and the memory of its segments. -/
structure Request where
  sector : ℕ
  write : Bool
  segments : List (List UInt8)
  /-- A sector number is a `sector_t`. -/
  sector_lt : sector < 2 ^ 64
  /-- The length of a segment is an `unsigned int`. -/
  len_lt : ∀ buf ∈ segments, buf.length < 2 ^ 32

namespace Request

/-- The place of the first byte. -/
def start (rq : Request) : ℕ := rq.sector * 2 ^ SECTOR_SHIFT

/-- The bytes of all segments. -/
def bytes (rq : Request) : List UInt8 := rq.segments.flatten

/-- The length of all segments. -/
def total (rq : Request) : ℕ := rq.bytes.length

/-- `rq_data_dir`, `bio_data_dir`. -/
def dataDir (rq : Request) : ℕ := if rq.write then WRITE else READ

end Request

/-- What a request leaves: what the function returns, the contents of the device and of the
segments, and the number of bytes that it reports. -/
structure Served where
  ret : ℤ
  data : ℤ → UInt8
  segments : List (List UInt8)
  nrBytes : ℕ

/-- `memcpy(dev->data + pos, b_buf, b_len)` for a write, `memcpy(b_buf, dev->data + pos, b_len)`
for a read, where the buffer of the device has `size` bytes: the contents of both afterwards. -/
def memcpy (size : ℕ) (write : Bool) (data : ℤ → UInt8) (pos : ℤ) (buf : List UInt8) (bLen : ℕ) :
    Option ((ℤ → UInt8) × List UInt8) :=
  if bLen = 0 ∨ 0 ≤ pos ∧ pos + bLen ≤ size ∧ bLen ≤ buf.length then
    if write then some (Cells.store data pos (buf.take bLen), buf)
    else some (data, Cells.load data pos bLen ++ buf.drop bLen)
  else none

/-! ### The drivers that clip -/

/-- The length to copy, with the conversions of the operands to `unsigned long`.

Source: `m_modules/blk_dev/sblkdev.c`, lines 78–79; `m_modules/blk_dev/mq-blkdev.c`,
lines 79–81. -/
def clip (devSize pos : ℤ) (bLen : ℕ) : ℕ :=
  if sizeT devSize < sizeT (pos + bLen) then sizeT (devSize - pos) else bLen

/-- The loop over the segments, with `cut` for the length to copy.

Source: `m_modules/blk_dev/sblkdev.c`, lines 73–88. -/
def segmentLoop (size : ℕ) (cut : ℤ → ℕ → ℕ) (write : Bool) (data : ℤ → UInt8) (pos : ℤ)
    (nrBytes : ℕ) : List (List UInt8) → Option Served
  | [] => some ⟨0, data, [], nrBytes⟩
  | buf :: rest =>
    let bLen := cut pos buf.length
    (memcpy size write data pos buf bLen).bind fun copied =>
      (segmentLoop size cut write copied.1 (loffT (pos + bLen)) ((nrBytes + bLen) % 2 ^ 32)
        rest).map fun res => { res with segments := copied.2 :: res.segments }

/-- A request in the loop. -/
def request (cut : ℤ → ℤ → ℕ → ℕ) (write : Bool) (dev : BlockDev) (rq : Request) :
    Option Served :=
  segmentLoop dev.size (cut dev.devSize) write dev.data (loffT (sizeT rq.start)) 0 rq.segments

/-- The length to copy in `blkdev.c`, which has one more test.

Source: `m_modules/blk_dev/blkdev.c`, lines 31–34. -/
def Blkdev.clip (devSize pos : ℤ) (bLen : ℕ) : ℕ :=
  let bLen := if sizeT devSize < sizeT (pos + bLen) then sizeT (devSize - pos) else bLen
  if bLen < 0 then 0 else bLen

/-- `do_request` of `blkdev.c`.

Source: `m_modules/blk_dev/blkdev.c`, lines 15–46. -/
def Blkdev.doRequest (dev : BlockDev) (rq : Request) : Option Served :=
  request Blkdev.clip (rq.dataDir == WRITE) dev rq

/-- `do_simple_request` of `sblkdev.c`.

Source: `m_modules/blk_dev/sblkdev.c`, lines 61–91. -/
def Sblkdev.doSimpleRequest (dev : BlockDev) (rq : Request) : Option Served :=
  request clip (rq.dataDir != 0) dev rq

/-- `do_request` of `mq-blkdev.c`.

Source: `m_modules/blk_dev/mq-blkdev.c`, lines 59–97. -/
def MqBlkdev.doRequest (dev : BlockDev) (rq : Request) : Option Served :=
  request clip (rq.dataDir == WRITE) dev rq

/-- The drivers that clip. -/
inductive Driver
  | blkdev
  | sblkdev
  | mqBlkdev

/-- The function of a driver that serves a request. -/
def Driver.doRequest : Driver → BlockDev → Request → Option Served
  | .blkdev => Blkdev.doRequest
  | .sblkdev => Sblkdev.doSimpleRequest
  | .mqBlkdev => MqBlkdev.doRequest

/-- The additional test is of an unsigned number, so it does nothing. -/
theorem Blkdev.clip_eq : Blkdev.clip = Blk.clip := by
  funext devSize pos bLen
  simp only [Blkdev.clip, Blk.clip, Nat.not_lt_zero, if_false]

theorem Driver.doRequest_eq (d : Driver) (dev : BlockDev) (rq : Request) :
    d.doRequest dev rq = request clip rq.write dev rq := by
  have hdir : (rq.dataDir == WRITE) = rq.write ∧ (rq.dataDir != 0) = rq.write := by
    rw [Request.dataDir]
    cases rq.write <;> decide
  cases d with
  | blkdev => rw [doRequest, Blkdev.doRequest, Blkdev.clip_eq, hdir.1]
  | sblkdev => rw [doRequest, Sblkdev.doSimpleRequest, hdir.2]
  | mqBlkdev => rw [doRequest, MqBlkdev.doRequest, hdir.1]

/-! ### The driver that checks the request as a whole -/

namespace Rd

/-- The loop over the segments. The cases of the switch differ in the direction of the copy; a
direction that is none of the three ends the loop.

Source: `m_modules/blk_dev/rd.c`, lines 36–64. -/
def segmentLoop (size dir biSize : ℕ) (data : ℤ → UInt8) (hddData : ℤ) :
    List (List UInt8) → Option Served
  | [] => some ⟨0, data, [], biSize⟩
  | buf :: rest =>
    if dir = READA ∨ dir = READ ∨ dir = WRITE then
      (memcpy size (dir = WRITE) data hddData buf buf.length).bind fun copied =>
        (segmentLoop size dir biSize copied.1 (hddData + buf.length) rest).map fun res =>
          { res with segments := copied.2 :: res.segments }
    else some ⟨-1, data, buf :: rest, 0⟩

/-- `device_make_request` of `rd.c`, with the size of the device for `DEVICE_SIZE`. The length
`bi_size` of a request is an `unsigned int`.

Source: `m_modules/blk_dev/rd.c`, lines 21–65. -/
def deviceMakeRequest (dev : BlockDev) (rq : Request) : Option Served :=
  let biSize : ℕ := rq.total % 2 ^ 32
  if dev.size < sizeT (rq.start + biSize : ℕ) then some ⟨-1, dev.data, rq.segments, 0⟩
  else segmentLoop dev.size rq.dataDir biSize dev.data (sizeT rq.start) rq.segments

end Rd

/-! ### What the loops do -/

section Loop

variable {size pos nrBytes : ℕ}

/-- From a position inside the device the cut leaves what is there of the segment. -/
theorem clip_of_le (hsize : size < 2 ^ 63) (hpos : pos ≤ size) {bLen : ℕ} (hlen : bLen < 2 ^ 32) :
    clip size pos bLen = min bLen (size - pos) := by
  have hsum : ((pos : ℤ) + bLen) = ((pos + bLen : ℕ) : ℤ) := by norm_cast
  have hsub : ((size : ℤ) - pos) = ((size - pos : ℕ) : ℤ) := (Nat.cast_sub hpos).symm
  rw [clip, hsum, hsub, sizeT_natCast (by omega), sizeT_natCast (by omega),
    sizeT_natCast (by omega)]
  split_ifs with hlt
  · omega
  · omega

theorem memcpy_write (data : ℤ → UInt8) (buf : List UInt8) {n : ℕ} (hn : pos + n ≤ size)
    (hbuf : n ≤ buf.length) :
    memcpy size true data pos buf n = some (Cells.store data pos (buf.take n), buf) := by
  rw [memcpy, if_pos (.inr ⟨by omega, by omega, hbuf⟩), if_pos rfl]

theorem memcpy_read (data : ℤ → UInt8) (buf : List UInt8) {n : ℕ} (hn : pos + n ≤ size)
    (hbuf : n ≤ buf.length) :
    memcpy size false data pos buf n = some (data, Cells.load data pos n ++ buf.drop n) := by
  rw [memcpy, if_pos (.inr ⟨by omega, by omega, hbuf⟩), if_neg Bool.false_ne_true]

theorem take_append_min {α : Type*} (xs ys : List α) (n : ℕ) :
    (xs ++ ys).take n = xs.take (min xs.length n) ++ ys.take (n - min xs.length n) := by
  rcases le_total xs.length n with hle | hle
  · rw [min_eq_left hle, List.take_length, List.take_append, List.take_of_length_le hle]
  · rw [min_eq_right hle, List.take_append_of_le_length hle, Nat.sub_self, List.take_zero,
      List.append_nil]

/-- Bytes that come over the first ones of two lists come over those of the first list, and what is
left of them over those of the second. -/
theorem overlay_append {α : Type*} (m : ℤ → α) (off : ℤ) (xs ys : List α) (n : ℕ) :
    Cells.load m off (min (xs.length + ys.length) n) ++
        (xs ++ ys).drop (min (xs.length + ys.length) n) =
      (Cells.load m off (min xs.length n) ++ xs.drop (min xs.length n)) ++
        (Cells.load m (off + (min xs.length n : ℕ)) (min ys.length (n - min xs.length n)) ++
          ys.drop (min ys.length (n - min xs.length n))) := by
  rcases le_total xs.length n with hle | hle
  · have hsum : min (xs.length + ys.length) n = xs.length + min ys.length (n - xs.length) := by
      omega
    rw [min_eq_left hle, hsum, Cells.load_add, List.drop_length_add_append, List.drop_length,
      List.append_nil, List.append_assoc]
  · have hsum : min (xs.length + ys.length) n = n := by omega
    rw [min_eq_right hle, hsum, Nat.sub_self, Nat.min_zero, Cells.load_zero, List.nil_append,
      List.drop_zero, List.drop_append_of_le_length hle, List.append_assoc]

theorem advance_eq (hsize : size < 2 ^ 63) (hpos : pos ≤ size) (nrBytes l r : ℕ) :
    loffT ((pos : ℤ) + (min l (size - pos) : ℕ)) = ((pos + min l (size - pos) : ℕ) : ℤ) ∧
      ((nrBytes + min l (size - pos)) % 2 ^ 32 + min r (size - (pos + min l (size - pos)))) %
        2 ^ 32 = (nrBytes + min (l + r) (size - pos)) % 2 ^ 32 := by
  constructor
  · rw [← Nat.cast_add, loffT_natCast (by omega)]
  · rw [Nat.mod_add_mod]
    congr 1
    omega

/-- **The loop for a write** from a position inside the device: the bytes of the segments that fit
are stored one after the other. -/
theorem segmentLoop_write (hsize : size < 2 ^ 63) (data : ℤ → UInt8) (hpos : pos ≤ size)
    (hnr : nrBytes < 2 ^ 32) {segments : List (List UInt8)}
    (hlen : ∀ buf ∈ segments, buf.length < 2 ^ 32) :
    segmentLoop size (clip size) true data pos nrBytes segments = some
      ⟨0, Cells.store data pos (segments.flatten.take (size - pos)), segments,
        (nrBytes + min segments.flatten.length (size - pos)) % 2 ^ 32⟩ := by
  induction segments generalizing data pos nrBytes with
  | nil => simp only [segmentLoop, List.flatten_nil, List.take_nil, Cells.store_nil,
      List.length_nil, Nat.zero_min, Nat.add_zero, Nat.mod_eq_of_lt hnr]
  | cons buf rest ih =>
    obtain ⟨hadvance, hcount⟩ := advance_eq hsize hpos nrBytes buf.length rest.flatten.length
    have hfits : pos + min buf.length (size - pos) ≤ size := by omega
    have hstored : (buf.take (min buf.length (size - pos))).length =
        min buf.length (size - pos) := by simp
    rw [segmentLoop, clip_of_le hsize hpos (hlen buf List.mem_cons_self)]
    simp only [memcpy_write data buf hfits (min_le_left _ _), Option.bind_some, hadvance]
    rw [ih _ (by omega) (Nat.mod_lt _ (by decide)) fun b hb => hlen b (List.mem_cons_of_mem buf hb),
      hcount, Option.map_some, List.flatten_cons, List.length_append, take_append_min,
      Cells.store_append, hstored, Nat.cast_add, Nat.sub_add_eq]

/-- **The loop for a read** from a position inside the device: the bytes that are there come over
the first ones of the segments. -/
theorem segmentLoop_read (hsize : size < 2 ^ 63) (data : ℤ → UInt8) (hpos : pos ≤ size)
    (hnr : nrBytes < 2 ^ 32) {segments : List (List UInt8)}
    (hlen : ∀ buf ∈ segments, buf.length < 2 ^ 32) :
    segmentLoop size (clip size) false data pos nrBytes segments = some
      ⟨0, data, (segments.map List.length).splitLengths
          (Cells.load data pos (min segments.flatten.length (size - pos)) ++
            segments.flatten.drop (min segments.flatten.length (size - pos))),
        (nrBytes + min segments.flatten.length (size - pos)) % 2 ^ 32⟩ := by
  induction segments generalizing pos nrBytes with
  | nil => simp only [segmentLoop, List.flatten_nil, List.length_nil, Nat.zero_min, Nat.add_zero,
      Nat.mod_eq_of_lt hnr, List.map_nil, List.splitLengths_nil]
  | cons buf rest ih =>
    obtain ⟨hadvance, hcount⟩ := advance_eq hsize hpos nrBytes buf.length rest.flatten.length
    have hfits : pos + min buf.length (size - pos) ≤ size := by omega
    have hfilled : (Cells.load data pos (min buf.length (size - pos)) ++
        buf.drop (min buf.length (size - pos))).length = buf.length := by
      rw [List.length_append, Cells.length_load, List.length_drop]
      omega
    rw [segmentLoop, clip_of_le hsize hpos (hlen buf List.mem_cons_self)]
    simp only [memcpy_read data buf hfits (min_le_left _ _), Option.bind_some, hadvance]
    rw [ih (by omega) (Nat.mod_lt _ (by decide)) fun b hb => hlen b (List.mem_cons_of_mem buf hb),
      hcount, Option.map_some, List.flatten_cons, List.length_append, List.map_cons,
      List.splitLengths_cons, overlay_append, List.take_left' hfilled, List.drop_left' hfilled,
      Nat.cast_add, Nat.sub_add_eq]

/-- **The loop of the fourth driver for a write** that fits. -/
theorem Rd.segmentLoop_write (biSize : ℕ) (data : ℤ → UInt8) {segments : List (List UInt8)}
    (hpos : pos + segments.flatten.length ≤ size) :
    Rd.segmentLoop size WRITE biSize data pos segments =
      some ⟨0, Cells.store data pos segments.flatten, segments, biSize⟩ := by
  induction segments generalizing data pos with
  | nil => simp only [Rd.segmentLoop, List.flatten_nil, Cells.store_nil]
  | cons buf rest ih =>
    rw [List.flatten_cons, List.length_append] at hpos
    have hcopy : memcpy size (decide (WRITE = WRITE)) data pos buf buf.length =
        some (Cells.store data pos buf, buf) := by
      rw [decide_eq_true rfl, memcpy_write data buf (by omega) le_rfl, List.take_length]
    rw [Rd.segmentLoop, if_pos (.inr (.inr rfl)), hcopy, Option.bind_some, ← Nat.cast_add,
      ih _ (by omega), Option.map_some, List.flatten_cons, Cells.store_append, Nat.cast_add]

/-- **The loop of the fourth driver for a read** that fits. -/
theorem Rd.segmentLoop_read (biSize : ℕ) (data : ℤ → UInt8) {segments : List (List UInt8)}
    (hpos : pos + segments.flatten.length ≤ size) :
    Rd.segmentLoop size READ biSize data pos segments = some
      ⟨0, data, (segments.map List.length).splitLengths
        (Cells.load data pos segments.flatten.length), biSize⟩ := by
  induction segments generalizing pos with
  | nil => simp only [Rd.segmentLoop, List.map_nil, List.splitLengths_nil]
  | cons buf rest ih =>
    rw [List.flatten_cons, List.length_append] at hpos
    have hcopy : memcpy size (decide (READ = WRITE)) data pos buf buf.length =
        some (data, Cells.load data pos buf.length) := by
      rw [decide_eq_false (by decide), memcpy_read data buf (by omega) le_rfl, List.drop_length,
        List.append_nil]
    rw [Rd.segmentLoop, if_pos (.inr (.inl rfl)), hcopy, Option.bind_some, ← Nat.cast_add,
      ih (by omega), Option.map_some, List.flatten_cons, List.length_append, List.map_cons,
      List.splitLengths_cons, Cells.load_add, List.take_left' (Cells.length_load _ _ _),
      List.drop_left' (Cells.length_load _ _ _), Nat.cast_add]

end Loop

end ExKernel.Blk
