import ExKernel.Blk.Device
import ExKernel.Lib.Transition

/-!
# How requests are cut into segments

Whatever the segments of requests that lie within a device are, a write stores their bytes as one
piece, and a read finds the bytes that were written last, by requests that may have been cut in any
other way. The four drivers do this alike.

The contents of the device after some requests are described without running them: the byte at a
place is that of the last write over it.

## Main definitions

* `Blk.Request.served`: what a request that lies within the device comes to.
* `Blk.lastWritten`: the contents of the device after requests.
* `Blk.Transferred`: what is said of one request.

## Main results

* `Blk.Driver.doRequest_of_within`, `Blk.Rd.deviceMakeRequest_of_within`: single requests.
* `Blk.segmentation_irrelevant`: all sequences of requests.

## References

* `m_modules/blk_dev/blkdev.c`, lines 15–46; `m_modules/blk_dev/sblkdev.c`, lines 61–91;
  `m_modules/blk_dev/mq-blkdev.c`, lines 59–97; `m_modules/blk_dev/rd.c`, lines 21–65.
-/

namespace ExKernel.Blk

open Transition

/-- The request ends within the device, and its length is an `unsigned int`. -/
def Within (dev : BlockDev) (rq : Request) : Prop :=
  rq.start + rq.total ≤ dev.size ∧ rq.total < 2 ^ 32

/-- What a request that lies within the device comes to: a write stores the bytes of the segments,
and a read deals the bytes of its range out to them. -/
def Request.served (rq : Request) (data : ℤ → UInt8) : Served where
  ret := 0
  data := if rq.write then Cells.store data rq.start rq.bytes else data
  segments :=
    if rq.write then rq.segments
    else (rq.segments.map List.length).splitLengths (Cells.load data rq.start rq.total)
  nrBytes := rq.total

/-- A request to a driver that serves requests by `f`. -/
def serve (f : BlockDev → Request → Option Served) (dev : BlockDev) (rq : Request) :
    Option (Served × BlockDev) :=
  (f dev rq).map fun res => (res, { dev with data := res.data })

/-- The byte that a request writes at a place. -/
def Request.byteAt (rq : Request) (x : ℤ) : Option UInt8 :=
  if rq.write = true ∧ rq.start ≤ x then rq.bytes[(x - rq.start).toNat]? else none

/-- The contents after the requests `rqs`: the last byte that was written at a place, if any was. -/
def lastWritten (data : ℤ → UInt8) (rqs : List Request) (x : ℤ) : UInt8 :=
  (rqs.reverse.findSome? (·.byteAt x)).getD (data x)

/-- What is said of one request to a device with the contents `before`. -/
structure Transferred (rq : Request) (before : ℤ → UInt8) (reply : Served) : Prop where
  nrBytes_eq : reply.nrBytes = rq.total
  lengths_eq : reply.segments.map List.length = rq.segments.map List.length
  written : rq.write = true → Cells.load reply.data rq.start rq.total = rq.bytes ∧
    (∀ x : ℤ, x < rq.start ∨ rq.start + rq.total ≤ x → reply.data x = before x) ∧
    reply.segments = rq.segments
  filled : rq.write = false → reply.data = before ∧
    reply.segments.flatten = Cells.load before rq.start rq.total

/-! ### Single requests -/

section Single

variable {dev : BlockDev} {rq : Request}

/-- **A request to one of the drivers that clip**, within the device. -/
theorem Driver.doRequest_of_within (d : Driver) (h : Within dev rq) :
    d.doRequest dev rq = some (rq.served dev.data) := by
  obtain ⟨hsize, htotal⟩ := h
  have hlt : dev.size < 2 ^ 63 := dev.size_lt
  have hmin : min rq.segments.flatten.length (dev.size - rq.start) = rq.total := by
    rw [Request.total, Request.bytes] at hsize ⊢
    omega
  have hpos : loffT (sizeT (rq.start : ℤ)) = rq.start := by
    rw [sizeT_natCast (by omega), loffT_natCast (by omega)]
  rw [d.doRequest_eq, request, dev.devSize_eq, hpos, Request.served]
  cases rq.write with
  | true =>
    rw [segmentLoop_write hlt _ (by omega) (by decide) rq.len_lt, hmin, Nat.zero_add,
      Nat.mod_eq_of_lt htotal, List.take_of_length_le]
    · rfl
    · rw [Request.total, Request.bytes] at hsize
      omega
  | false =>
    rw [segmentLoop_read hlt _ (by omega) (by decide) rq.len_lt, hmin, Nat.zero_add,
      Nat.mod_eq_of_lt htotal, Request.total, Request.bytes, List.drop_length, List.append_nil]
    rfl

/-- **A request to the driver that checks it as a whole**, within the device. -/
theorem Rd.deviceMakeRequest_of_within (h : Within dev rq) :
    Rd.deviceMakeRequest dev rq = some (rq.served dev.data) := by
  obtain ⟨hsize, htotal⟩ := h
  have hlt : dev.size < 2 ^ 63 := dev.size_lt
  have hcheck : ¬ dev.size < sizeT ((rq.start + rq.total : ℕ) : ℤ) := by
    rw [sizeT_natCast (by omega)]
    omega
  rw [Rd.deviceMakeRequest]
  simp only [Nat.mod_eq_of_lt htotal]
  rw [if_neg hcheck, sizeT_natCast (by omega), Request.dataDir, Request.served]
  cases rq.write with
  | true => exact Rd.segmentLoop_write _ _ hsize
  | false => exact Rd.segmentLoop_read _ _ hsize

theorem Request.served_transferred (rq : Request) (data : ℤ → UInt8) :
    Transferred rq data (rq.served data) := by
  have hsum : (rq.segments.map List.length).sum = rq.total := by
    rw [Request.total, Request.bytes, List.length_flatten]
  refine ⟨rfl, ?_, fun hwrite => ⟨?_, fun x hx => ?_, ?_⟩, fun hread => ⟨?_, ?_⟩⟩
  · simp only [served]
    split_ifs
    · rfl
    · exact List.map_splitLengths_length _ _ (by rw [hsum, Cells.length_load])
  · simp only [served, hwrite, if_true]
    exact Cells.load_store_self _ _ _
  · simp only [served, hwrite, if_true]
    rcases hx with hlt | hge
    · exact Cells.store_of_lt _ _ _ hlt
    · exact Cells.store_of_ge _ _ _ hge
  · simp only [served, hwrite, if_true]
  · simp [served, hread]
  · simp only [served, hread, Bool.false_eq_true, if_false]
    exact List.flatten_splitLengths _ _ (by rw [hsum, Cells.length_load])

theorem Request.served_data (rq : Request) (data : ℤ → UInt8) (x : ℤ) :
    (rq.served data).data x = (rq.byteAt x).getD (data x) := by
  rw [served, byteAt]
  by_cases hwrite : rq.write = true
  · simp only [hwrite, if_true, true_and, Cells.store]
    split_ifs <;> rfl
  · simp [hwrite]

end Single

/-! ### Sequences of requests -/

/-- The replies to requests. -/
def replies (data : ℤ → UInt8) : List Request → List Served
  | [] => []
  | rq :: rqs => rq.served data :: replies (rq.served data).data rqs

section Sequence

variable (data : ℤ → UInt8) (rqs : List Request)

theorem lastWritten_nil : lastWritten data [] = data := rfl

theorem lastWritten_cons (rq : Request) :
    lastWritten data (rq :: rqs) = lastWritten (rq.served data).data rqs := by
  funext x
  rw [lastWritten, lastWritten, List.reverse_cons, List.findSome?_append, rq.served_data]
  cases rqs.reverse.findSome? (·.byteAt x) with
  | some b => rfl
  | none => simp

theorem length_replies : (replies data rqs).length = rqs.length := by
  induction rqs generalizing data with
  | nil => rfl
  | cons rq rqs ih => rw [replies, List.length_cons, List.length_cons, ih]

theorem replies_getElem? {i : ℕ} {rq : Request} (h : rqs[i]? = some rq) :
    (replies data rqs)[i]? = some (rq.served (lastWritten data (rqs.take i))) := by
  induction rqs generalizing data i with
  | nil => cases h
  | cons rq' rqs ih =>
    cases i with
    | zero =>
      cases h
      rfl
    | succ i =>
      rw [replies, List.getElem?_cons_succ, List.take_succ_cons, lastWritten_cons]
      exact ih _ h

theorem served_data_eq_lastWritten {i : ℕ} {rq : Request} (h : rqs[i]? = some rq) :
    (rq.served (lastWritten data (rqs.take i))).data = lastWritten data (rqs.take (i + 1)) := by
  induction rqs generalizing data i with
  | nil => cases h
  | cons rq' rqs ih =>
    cases i with
    | zero =>
      cases h
      rw [List.take_zero, lastWritten_nil, List.take_succ_cons, List.take_zero, lastWritten_cons,
        lastWritten_nil]
    | succ i =>
      rw [List.take_succ_cons, List.take_succ_cons, lastWritten_cons, lastWritten_cons]
      exact ih _ h

/-- A driver that serves single requests within the device as it should, serves all sequences of
them so. -/
theorem exec_serve_eq {f : BlockDev → Request → Option Served}
    (hf : ∀ dev rq, Within dev rq → f dev rq = some (rq.served dev.data)) {dev : BlockDev}
    {rqs : List Request} (h : ∀ rq ∈ rqs, Within dev rq) :
    exec (serve f) dev rqs =
      some (replies dev.data rqs, { dev with data := lastWritten dev.data rqs }) := by
  induction rqs generalizing dev with
  | nil => rfl
  | cons rq rqs ih =>
    have hserve : serve f dev rq =
        some (rq.served dev.data, { dev with data := (rq.served dev.data).data }) := by
      rw [serve, hf dev rq (h rq List.mem_cons_self), Option.map_some]
    have hrest : exec (serve f) { dev with data := (rq.served dev.data).data } rqs = _ :=
      ih fun rq' hrq' => h rq' (List.mem_cons_of_mem rq hrq')
    rw [← lastWritten_cons] at hrest
    exact exec_cons_eq_some.mpr ⟨_, _, _, hserve, hrest, rfl⟩

end Sequence

/-- **Segments do not matter.** A sequence of requests within a device gets the same replies from
all four drivers, which leave the device with the same contents: at every place the byte that was
written there last. So it is after every request of the sequence, and a read finds these bytes,
however the writes and the read are cut.

Source: `m_modules/blk_dev/blkdev.c`, lines 15–46; `m_modules/blk_dev/sblkdev.c`, lines 61–91;
`m_modules/blk_dev/mq-blkdev.c`, lines 59–97; `m_modules/blk_dev/rd.c`, lines 21–65. -/
theorem segmentation_irrelevant (dev : BlockDev) (rqs : List Request)
    (h : ∀ rq ∈ rqs, Within dev rq) :
    ∃ res : List Served, res.length = rqs.length ∧
      (∀ d : Driver, exec (serve d.doRequest) dev rqs =
        some (res, { dev with data := lastWritten dev.data rqs })) ∧
      exec (serve Rd.deviceMakeRequest) dev rqs =
        some (res, { dev with data := lastWritten dev.data rqs }) ∧
      ∀ i rq reply, rqs[i]? = some rq → res[i]? = some reply →
        Transferred rq (lastWritten dev.data (rqs.take i)) reply ∧
          reply.data = lastWritten dev.data (rqs.take (i + 1)) := by
  refine ⟨replies dev.data rqs, length_replies _ _,
    fun d => exec_serve_eq (fun _ _ => d.doRequest_of_within) h,
    exec_serve_eq (fun _ _ => Rd.deviceMakeRequest_of_within) h, fun i rq reply hrq hreply => ?_⟩
  rw [replies_getElem? _ _ hrq] at hreply
  cases hreply
  exact ⟨rq.served_transferred _, served_data_eq_lastWritten _ _ hrq⟩

/-- A write with two segments, and a read of its bytes with three. -/
def writeThenRead : List Request :=
  [⟨1, true, [[1, 2], [3]], by decide, by decide⟩,
    ⟨1, false, [[0], [], [0, 0]], by decide, by decide⟩]

theorem segmentation_irrelevant_write_then_read :
    ∃ res : List Served, res.length = 2 ∧
      (∀ d : Driver, exec (serve d.doRequest) ⟨2, fun _ => 0, by decide⟩ writeThenRead =
        some (res, ⟨2, lastWritten (fun _ => 0) writeThenRead, by decide⟩)) ∧
      exec (serve Rd.deviceMakeRequest) ⟨2, fun _ => 0, by decide⟩ writeThenRead =
        some (res, ⟨2, lastWritten (fun _ => 0) writeThenRead, by decide⟩) ∧
      ∀ i rq reply, writeThenRead[i]? = some rq → res[i]? = some reply →
        Transferred rq (lastWritten (fun _ => 0) (writeThenRead.take i)) reply ∧
          reply.data = lastWritten (fun _ => 0) (writeThenRead.take (i + 1)) := by
  refine segmentation_irrelevant ⟨2, fun _ => 0, by decide⟩ writeThenRead fun rq hrq => ?_
  rcases List.mem_pair.mp hrq with rfl | rfl
  · exact ⟨by decide, by decide⟩
  · exact ⟨by decide, by decide⟩

end ExKernel.Blk
