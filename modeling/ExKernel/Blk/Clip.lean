import ExKernel.Blk.Device

/-!
# Requests that pass the end of the device

Three of the drivers cut a segment off at the end of the device. The difference from the position to
the end is taken as an unsigned number, so it is only right from a position that is not behind the
end: from a position behind it the length to copy is near 2⁶⁴. And what was cut off is known only
from the number of bytes that were copied, which two of the drivers do not use when they complete
the request, while for the third a request with a smaller number is a bug.

## Main definitions

* `Blk.ClipsAll`: a request is clipped as it should be.
* `Blk.Driver.queueRq`: the completion of a request.
* `Blk.Acknowledges`: a request is completed as it should be.

## Main results

* `Blk.Driver.doRequest_of_le`, `Blk.Driver.doRequest_of_lt`: requests from inside the device, and
  from behind its end.
* `Blk.clip_complete_iff`: when a request is clipped as it should be.
* `Blk.acknowledged_iff`: when a request is completed as it should be.

## References

* `m_modules/blk_dev/blkdev.c`, lines 15–69; `m_modules/blk_dev/sblkdev.c`, lines 61–121;
  `m_modules/blk_dev/mq-blkdev.c`, lines 59–123.
-/

namespace ExKernel.Blk

/-! ### Clipping -/

/-- All copies stay inside the device and the segments, and the bytes that are reported are those of
the segments that are not behind the end of the device. -/
def ClipsAll (d : Driver) (dev : BlockDev) (rq : Request) : Prop :=
  ∃ res, d.doRequest dev rq = some res ∧ res.nrBytes = min rq.total (dev.size - rq.start)

/-- From behind the end of the device, no copy stays inside: its length is not zero, and if the
position is not negative the length passes every end. -/
theorem memcpy_of_lt {size u : ℕ} (hsize : size < 2 ^ 63) (hu : size < u) (hlt : u < 2 ^ 64)
    (write : Bool) (data : ℤ → UInt8) {buf : List UInt8} (hbuf : buf.length < 2 ^ 32) :
    memcpy size write data (loffT u) buf (clip size (loffT u) buf.length) = none := by
  have hpos : loffT (u : ℤ) = if u < 2 ^ 63 then (u : ℤ) else u - 2 ^ 64 := by
    rw [loffT, Int.bmod_def]
    split_ifs <;> omega
  have hclip : clip size (loffT u) buf.length =
      if (u + buf.length) % 2 ^ 64 ≤ size then buf.length else 2 ^ 64 + size - u := by
    rw [clip, hpos, sizeT, sizeT, sizeT]
    split_ifs <;> omega
  refine if_neg ?_
  rw [hclip, hpos]
  split_ifs <;> omega

section Request

variable {dev : BlockDev} {rq : Request}

theorem sizeT_start (rq : Request) : sizeT (rq.start : ℤ) = rq.start % 2 ^ 64 := by
  rw [sizeT]
  omega

/-- **A request from inside the device**: the bytes that are not behind its end are copied. -/
theorem Driver.doRequest_of_le (d : Driver) (h : rq.start % 2 ^ 64 ≤ dev.size) :
    ∃ res, d.doRequest dev rq = some res ∧ res.ret = 0 ∧
      res.nrBytes = min rq.total (dev.size - rq.start % 2 ^ 64) % 2 ^ 32 := by
  have hlt : dev.size < 2 ^ 63 := dev.size_lt
  rw [d.doRequest_eq, request, dev.devSize_eq, sizeT_start, loffT_natCast (by omega)]
  cases rq.write with
  | true =>
    rw [segmentLoop_write hlt _ h (by decide) rq.len_lt, Nat.zero_add]
    exact ⟨_, rfl, rfl, rfl⟩
  | false =>
    rw [segmentLoop_read hlt _ h (by decide) rq.len_lt, Nat.zero_add]
    exact ⟨_, rfl, rfl, rfl⟩

/-- **A request from behind the end of the device** copies what is not there. -/
theorem Driver.doRequest_of_lt (d : Driver) (h : dev.size < rq.start % 2 ^ 64)
    (hne : rq.segments ≠ []) : d.doRequest dev rq = none := by
  obtain ⟨buf, rest, hsegments⟩ := List.exists_cons_of_ne_nil hne
  have hbuf : buf.length < 2 ^ 32 := rq.len_lt buf (by simp [hsegments])
  have hcopy := memcpy_of_lt dev.size_lt h (Nat.mod_lt _ (by decide)) rq.write dev.data hbuf
  rw [d.doRequest_eq, request, dev.devSize_eq, sizeT_start, hsegments, segmentLoop]
  exact congrArg (Option.bind · _) hcopy

theorem Driver.doRequest_of_nil (d : Driver) (dev : BlockDev) (h : rq.segments = []) :
    ∃ res, d.doRequest dev rq = some res ∧ res.nrBytes = 0 := by
  rw [d.doRequest_eq, request, h]
  exact ⟨_, rfl, rfl⟩

end Request

/-- **When the drivers clip as they should.** For every device, with any first sector and any
segments: the request has no segments; or it starts inside the device, and the bytes from there that
it reaches are counted by an `unsigned int`; or its start passes 2⁶⁴ and wraps to a place inside the
device, where it reaches a number of bytes that the count drops, as 0.

Source: `m_modules/blk_dev/blkdev.c`, lines 15–46; `m_modules/blk_dev/sblkdev.c`, lines 61–91;
`m_modules/blk_dev/mq-blkdev.c`, lines 59–97. -/
theorem clip_complete_iff (d : Driver) (dev : BlockDev) (rq : Request) :
    ClipsAll d dev rq ↔
      rq.segments = [] ∨
      (rq.start ≤ dev.size ∧ min rq.total (dev.size - rq.start) < 2 ^ 32) ∨
      (2 ^ 64 ≤ rq.start ∧ rq.start % 2 ^ 64 ≤ dev.size ∧
        2 ^ 32 ∣ min rq.total (dev.size - rq.start % 2 ^ 64)) := by
  have hlt : dev.size < 2 ^ 63 := dev.size_lt
  by_cases hnil : rq.segments = []
  · obtain ⟨res, hres, hnr⟩ := d.doRequest_of_nil dev hnil
    have htotal : rq.total = 0 := by
      rw [Request.total, Request.bytes, hnil, List.flatten_nil, List.length_nil]
    exact iff_of_true ⟨res, hres, by rw [hnr, htotal, Nat.zero_min]⟩ (.inl hnil)
  by_cases hinside : rq.start % 2 ^ 64 ≤ dev.size
  · obtain ⟨res, hres, -, hnr⟩ := d.doRequest_of_le hinside
    have hiff : ClipsAll d dev rq ↔ min rq.total (dev.size - rq.start % 2 ^ 64) % 2 ^ 32 =
        min rq.total (dev.size - rq.start) := by
      simp [ClipsAll, hres, hnr]
    rw [hiff]
    simp only [hnil, false_or, hinside, true_and]
    rcases lt_or_ge rq.start (2 ^ 64) with hstart | hstart
    · simp only [Nat.mod_eq_of_lt hstart] at hinside ⊢
      omega
    · -- The start passes 2⁶⁴, so the request reaches no byte of the device.
      have hzero : dev.size - rq.start = 0 := by omega
      rw [hzero, Nat.min_zero, Nat.dvd_iff_mod_eq_zero]
      omega
  · rw [ClipsAll, d.doRequest_of_lt (by omega) hnil]
    refine iff_of_false (by simp) ?_
    rintro (hsegments | ⟨hstart, -⟩ | ⟨-, hstart, -⟩)
    · exact hnil hsegments
    · omega
    · exact hinside hstart

/-- A device of one sector. -/
def oneSector : BlockDev := ⟨1, fun _ => 0, by decide⟩

/-- A write of zeros, in segments of one sector each. -/
def writeZeros (sector segments : ℕ) (h : sector < 2 ^ 64) : Request where
  sector := sector
  write := true
  segments := List.replicate segments (List.replicate 512 0)
  sector_lt := h
  len_lt := by
    intro buf hbuf
    rw [List.eq_of_mem_replicate hbuf, List.length_replicate]
    decide

theorem total_writeZeros (sector segments : ℕ) (h : sector < 2 ^ 64) :
    (writeZeros sector segments h).total = segments * 512 := by
  simp only [Request.total, Request.bytes, writeZeros, List.length_flatten, List.map_replicate,
    List.length_replicate, List.sum_replicate_nat]

/-- Of a device of one sector, the third is written. -/
theorem clip_incomplete :
    ¬ ClipsAll .blkdev oneSector (writeZeros 2 1 (by decide)) ∧
      ¬ ClipsAll .sblkdev oneSector (writeZeros 2 1 (by decide)) ∧
      ¬ ClipsAll .mqBlkdev oneSector (writeZeros 2 1 (by decide)) := by
  have hnone : ∀ d : Driver, ¬ ClipsAll d oneSector (writeZeros 2 1 (by decide)) := by
    rintro d ⟨res, hres, -⟩
    rw [d.doRequest_of_lt (by decide) (List.cons_ne_nil _ _)] at hres
    cases hres
  exact ⟨hnone .blkdev, hnone .sblkdev, hnone .mqBlkdev⟩

/-! ### Completion -/

/-- The status that a request is completed with. -/
inductive BlkStatus
  | ok
  | ioerr
deriving DecidableEq

/-- The end of a request: it is completed with a status for a number of bytes, or `BUG()` is
reached. -/
inductive Completion
  | ended (status : BlkStatus) (bytes : ℕ)
  | bug
deriving DecidableEq

/-- What `queue_rq` does with a request: how it ends, what the function returns, and what the
request leaves. -/
structure Queued where
  completion : Completion
  ret : BlkStatus
  served : Served

/-- The status for what the function that serves the request returns. -/
def Served.status (res : Served) : BlkStatus := if res.ret ≠ 0 then .ioerr else .ok

/-- `queue_rq` of the drivers that complete the whole request by `blk_mq_end_request`.

Source: `m_modules/blk_dev/blkdev.c`, lines 48–69; `m_modules/blk_dev/sblkdev.c`, lines 97–121. -/
def endWhole (f : BlockDev → Request → Option Served) (dev : BlockDev) (rq : Request) :
    Option Queued :=
  (f dev rq).map fun res => ⟨.ended res.status rq.total, .ok, res⟩

/-- `queue_rq` of `blkdev.c`. -/
def Blkdev.queueRq : BlockDev → Request → Option Queued := endWhole Blkdev.doRequest

/-- `queue_rq` of `sblkdev.c`. -/
def Sblkdev.queueRq : BlockDev → Request → Option Queued := endWhole Sblkdev.doSimpleRequest

section Queue

-- `blk_update_request`: whether a request of some length is unfinished after some bytes.
variable (blkUpdateRequest : ℕ → ℕ → Bool)

/-- `queue_rq` of `mq-blkdev.c`.

Source: `m_modules/blk_dev/mq-blkdev.c`, lines 100–123. -/
def MqBlkdev.queueRq (dev : BlockDev) (rq : Request) : Option Queued :=
  (MqBlkdev.doRequest dev rq).map fun res =>
    if blkUpdateRequest rq.total res.nrBytes then ⟨.bug, res.status, res⟩
    else ⟨.ended res.status res.nrBytes, res.status, res⟩

/-- `queue_rq` of a driver. -/
def Driver.queueRq : Driver → BlockDev → Request → Option Queued
  | .blkdev => Blkdev.queueRq
  | .sblkdev => Sblkdev.queueRq
  | .mqBlkdev => MqBlkdev.queueRq blkUpdateRequest

/-- What is expected of the end of a request: two drivers complete all of it without an error only
if all was copied, and the third does not reach `BUG()`. -/
def Honest (rq : Request) (out : Queued) : Driver → Prop
  | .blkdev | .sblkdev =>
    out.completion = .ended .ok rq.total → out.served.nrBytes = rq.total
  | .mqBlkdev => out.completion ≠ .bug

/-- A request ends as is expected. -/
def Acknowledges (d : Driver) (dev : BlockDev) (rq : Request) : Prop :=
  ∃ out, d.queueRq blkUpdateRequest dev rq = some out ∧ Honest rq out d

variable {blkUpdateRequest}

/-- A request that was served is completed as is expected if all was copied, and only then. -/
theorem acknowledges_iff_nrBytes
    (hupdate : ∀ total n, blkUpdateRequest total n = true ↔ n < total) {d : Driver}
    {dev : BlockDev} {rq : Request} {res : Served} (hres : d.doRequest dev rq = some res)
    (hret : res.ret = 0) (hle : res.nrBytes ≤ rq.total) :
    Acknowledges blkUpdateRequest d dev rq ↔ res.nrBytes = rq.total := by
  have hstatus : res.status = .ok := if_neg (not_not.mpr hret)
  cases d with
  | blkdev =>
    have hqueue : Blkdev.queueRq dev rq = some ⟨.ended .ok rq.total, .ok, res⟩ := by
      rw [Blkdev.queueRq, endWhole, ← hstatus]
      exact congrArg _ hres
    simp [Acknowledges, Driver.queueRq, hqueue, Honest]
  | sblkdev =>
    have hqueue : Sblkdev.queueRq dev rq = some ⟨.ended .ok rq.total, .ok, res⟩ := by
      rw [Sblkdev.queueRq, endWhole, ← hstatus]
      exact congrArg _ hres
    simp [Acknowledges, Driver.queueRq, hqueue, Honest]
  | mqBlkdev =>
    have hserved : MqBlkdev.doRequest dev rq = some res := hres
    by_cases hlt : res.nrBytes < rq.total
    · have hqueue : MqBlkdev.queueRq blkUpdateRequest dev rq = some ⟨.bug, res.status, res⟩ := by
        rw [MqBlkdev.queueRq, hserved, Option.map_some, if_pos ((hupdate _ _).mpr hlt)]
      simp [Acknowledges, Driver.queueRq, hqueue, Honest, hlt.ne]
    · have hqueue : MqBlkdev.queueRq blkUpdateRequest dev rq =
          some ⟨.ended res.status res.nrBytes, res.status, res⟩ := by
        rw [MqBlkdev.queueRq, hserved, Option.map_some, if_neg fun h => hlt ((hupdate _ _).mp h)]
      exact iff_of_true ⟨_, hqueue, Completion.noConfusion⟩ (le_antisymm hle (not_lt.mp hlt))

end Queue

/-- **When a request is completed as it should be.** For every request that starts within the
device: it ends within the device, and its length is an `unsigned int`.

Source: `m_modules/blk_dev/blkdev.c`, lines 15–69; `m_modules/blk_dev/sblkdev.c`, lines 61–121;
`m_modules/blk_dev/mq-blkdev.c`, lines 59–123. -/
theorem acknowledged_iff (blkUpdateRequest : ℕ → ℕ → Bool)
    (hupdate : ∀ total n, blkUpdateRequest total n = true ↔ n < total) (d : Driver)
    (dev : BlockDev) (rq : Request) (hstart : rq.start ≤ dev.size) :
    Acknowledges blkUpdateRequest d dev rq ↔
      rq.start + rq.total ≤ dev.size ∧ rq.total < 2 ^ 32 := by
  have hlt : dev.size < 2 ^ 63 := dev.size_lt
  have hmod : rq.start % 2 ^ 64 = rq.start := Nat.mod_eq_of_lt (by omega)
  obtain ⟨res, hres, hret, hnr⟩ := d.doRequest_of_le (hmod.trans_le hstart)
  rw [hmod] at hnr
  rw [acknowledges_iff_nrBytes hupdate hres hret (by omega), hnr]
  omega

theorem acknowledged_iff_one_sector :
    Acknowledges (fun total n => decide (n < total)) .mqBlkdev oneSector
      (writeZeros 0 1 (by decide)) := by
  refine (acknowledged_iff _ (fun _ _ => decide_eq_true_iff) .mqBlkdev oneSector _
    (by decide)).mpr ?_
  rw [total_writeZeros]
  exact ⟨by decide, by decide⟩

/-- Two sectors are written to a device of one. -/
theorem clipped_acknowledged :
    ¬ Acknowledges (fun total n => decide (n < total)) .blkdev oneSector
        (writeZeros 0 2 (by decide)) ∧
      ¬ Acknowledges (fun total n => decide (n < total)) .sblkdev oneSector
        (writeZeros 0 2 (by decide)) ∧
      ¬ Acknowledges (fun total n => decide (n < total)) .mqBlkdev oneSector
        (writeZeros 0 2 (by decide)) := by
  have hnot : ∀ d : Driver, ¬ Acknowledges (fun total n => decide (n < total)) d oneSector
      (writeZeros 0 2 (by decide)) := by
    intro d
    have hinside : (writeZeros 0 2 (by decide)).start % 2 ^ 64 ≤ oneSector.size := by decide
    obtain ⟨res, hres, hret, hnr⟩ := d.doRequest_of_le hinside
    have hcopied : res.nrBytes = 512 := by
      rw [hnr, total_writeZeros]
      decide
    rw [acknowledges_iff_nrBytes (fun _ _ => decide_eq_true_iff) hres hret
      (by rw [hcopied, total_writeZeros]; decide), hcopied, total_writeZeros]
    decide
  exact ⟨hnot .blkdev, hnot .sblkdev, hnot .mqBlkdev⟩

end ExKernel.Blk
