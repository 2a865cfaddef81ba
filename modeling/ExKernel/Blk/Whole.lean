import ExKernel.Blk.Segments

/-!
# Requests that are checked as a whole

The fourth driver computes the end of a request before it does anything, and refuses the request if
this is behind the end of the device. The end is computed in 64 bits from a sector number of 64
bits, so it wraps: the sector number 2⁵⁵ stands for the first sector. A request whose end wraps
around to a place inside the device is not refused. It is served at the place that its sector number
wraps to, if it lies there as a whole, and leaves the buffer otherwise.

So the driver is a device of its size, which serves what lies within it and refuses the rest, as
long as no request wraps; and the first one that does is the first that is answered wrongly.

## Main definitions

* `Blk.Wraps`: the end of a request is behind the device, and wraps around to a place inside.
* `Blk.Request.checked`: what a request should come to.
* `Blk.accepted`: the requests that should be served.

## Main results

* `Blk.Rd.deviceMakeRequest_eq`: what a request comes to.
* `Blk.Rd.deviceMakeRequest_checked_iff`: when it comes to what it should.
* `Blk.Rd.checked_run_iff`: all sequences of requests.

## References

* `m_modules/blk_dev/rd.c`, lines 21–65.
-/

namespace ExKernel.Blk

open Transition

/-- The request ends behind the end of the device, and its end in 64 bits does not. -/
def Wraps (dev : BlockDev) (rq : Request) : Prop :=
  dev.size < rq.start + rq.total ∧ (rq.start + rq.total) % 2 ^ 64 ≤ dev.size

instance (dev : BlockDev) (rq : Request) : Decidable (Wraps dev rq) :=
  inferInstanceAs (Decidable (_ ∧ _))

namespace Request

/-- What a request comes to that is served at the place `pos`. -/
def servedAt (rq : Request) (pos : ℕ) (data : ℤ → UInt8) : Served where
  ret := 0
  data := if rq.write then Cells.store data pos rq.bytes else data
  segments :=
    if rq.write then rq.segments
    else (rq.segments.map List.length).splitLengths (Cells.load data pos rq.total)
  nrBytes := rq.total

/-- What a request comes to that is refused. -/
def refused (rq : Request) (data : ℤ → UInt8) : Served := ⟨-1, data, rq.segments, 0⟩

/-- What a request to a device with `size` bytes should come to: it is served if it lies within the
device, and refused otherwise. -/
def checked (rq : Request) (size : ℕ) (data : ℤ → UInt8) : Served :=
  if rq.start + rq.total ≤ size then rq.served data else rq.refused data

end Request

/-- The requests that should be served. -/
def accepted (dev : BlockDev) (rqs : List Request) : List Request :=
  rqs.filter fun rq => rq.start + rq.total ≤ dev.size

/-! ### Single requests -/

/-- A copy that begins behind the end of the buffer, or passes it, has no result, unless it has no
bytes. -/
theorem Rd.segmentLoop_of_lt {size dir biSize pos : ℕ} (hdir : dir = READ ∨ dir = WRITE)
    {data : ℤ → UInt8} {segments : List (List UInt8)}
    (hout : size < pos + segments.flatten.length) (hsome : segments.flatten ≠ []) :
    Rd.segmentLoop size dir biSize data pos segments = none := by
  induction segments generalizing data pos with
  | nil => exact absurd List.flatten_nil hsome
  | cons buf rest ih =>
    have hcase : dir = READA ∨ dir = READ ∨ dir = WRITE := .inr hdir
    rw [segmentLoop, if_pos hcase]
    by_cases hcopy : buf.length = 0 ∨ 0 ≤ (pos : ℤ) ∧ (pos : ℤ) + buf.length ≤ size ∧
        buf.length ≤ buf.length
    · refine Option.bind_eq_none_iff.mpr fun copied _ => ?_
      rw [List.flatten_cons] at hout hsome
      rw [List.length_append] at hout
      have hrest : rest.flatten ≠ [] := by
        intro hnil
        rw [hnil, List.length_nil, Nat.add_zero] at hout
        rw [hnil, List.append_nil] at hsome
        have hpos : 0 < buf.length := List.length_pos_iff.mpr hsome
        rcases hcopy with hzero | ⟨-, hfits, -⟩
        · omega
        · omega
      rw [← Nat.cast_add, ih (by omega) hrest, Option.map_none]
    · rw [memcpy, if_neg hcopy, Option.bind_none]

section Single

variable {dev : BlockDev} {rq : Request}

/-- **What a request comes to**, wherever it lies. -/
theorem Rd.deviceMakeRequest_eq (htotal : rq.total < 2 ^ 32) :
    Rd.deviceMakeRequest dev rq =
      if dev.size < (rq.start + rq.total) % 2 ^ 64 then some (rq.refused dev.data)
      else if rq.start % 2 ^ 64 + rq.total ≤ dev.size then
        some (rq.servedAt (rq.start % 2 ^ 64) dev.data)
      else none := by
  have hlt : dev.size < 2 ^ 63 := dev.size_lt
  have hsizeT : ∀ n : ℕ, sizeT (n : ℤ) = n % 2 ^ 64 := fun n => by
    rw [sizeT]
    omega
  rw [Rd.deviceMakeRequest]
  simp only [Nat.mod_eq_of_lt htotal, hsizeT]
  by_cases hcheck : dev.size < (rq.start + rq.total) % 2 ^ 64
  · rw [if_pos hcheck, if_pos hcheck]
    rfl
  rw [if_neg hcheck, if_neg hcheck]
  have hlength : rq.segments.flatten.length = rq.total := rfl
  by_cases hfits : rq.start % 2 ^ 64 + rq.total ≤ dev.size
  · rw [if_pos hfits, Request.dataDir, Request.servedAt]
    cases rq.write with
    | true => exact Rd.segmentLoop_write _ _ hfits
    | false => exact Rd.segmentLoop_read _ _ hfits
  · rw [if_neg hfits]
    refine Rd.segmentLoop_of_lt ?_ (by omega) fun hnil => ?_
    · rw [Request.dataDir]
      cases rq.write with
      | true => exact .inr rfl
      | false => exact .inl rfl
    · rw [hnil, List.length_nil] at hlength
      omega

theorem Request.servedAt_start (rq : Request) (data : ℤ → UInt8) :
    rq.servedAt rq.start data = rq.served data := rfl

/-- **When a request comes to what it should.** -/
theorem Rd.deviceMakeRequest_checked_iff (htotal : rq.total < 2 ^ 32) :
    Rd.deviceMakeRequest dev rq = some (rq.checked dev.size dev.data) ↔ ¬ Wraps dev rq := by
  have hlt : dev.size < 2 ^ 63 := dev.size_lt
  rw [Rd.deviceMakeRequest_eq htotal, Request.checked]
  by_cases hwithin : rq.start + rq.total ≤ dev.size
  · have hstart : rq.start % 2 ^ 64 = rq.start := Nat.mod_eq_of_lt (by omega)
    rw [if_neg (by omega), hstart, if_pos hwithin, if_pos hwithin, rq.servedAt_start]
    exact iff_of_true rfl fun hwraps => absurd hwraps.1 (by omega)
  rw [if_neg hwithin]
  by_cases hcheck : dev.size < (rq.start + rq.total) % 2 ^ 64
  · rw [if_pos hcheck]
    exact iff_of_true rfl fun hwraps => absurd hwraps.2 (by omega)
  rw [if_neg hcheck]
  refine iff_of_false (fun heq => ?_) (not_not.mpr ⟨by omega, by omega⟩)
  split_ifs at heq
  have hret : (0 : ℤ) = -1 := congrArg Served.ret (Option.some.inj heq)
  exact absurd hret (by decide)

end Single

/-! ### Sequences of requests -/

theorem Request.checked_data (rq : Request) (dev : BlockDev) :
    (rq.checked dev.size dev.data).data = lastWritten dev.data (accepted dev [rq]) := by
  rw [Request.checked, accepted]
  by_cases hwithin : rq.start + rq.total ≤ dev.size
  · rw [if_pos hwithin, List.filter_cons_of_pos (by simpa using hwithin), List.filter_nil,
      lastWritten_cons, lastWritten_nil]
  · rw [if_neg hwithin, List.filter_cons_of_neg (by simpa using hwithin), List.filter_nil,
      lastWritten_nil]
    rfl

theorem lastWritten_append (data : ℤ → UInt8) (xs ys : List Request) :
    lastWritten data (xs ++ ys) = lastWritten (lastWritten data xs) ys := by
  induction xs generalizing data with
  | nil => rfl
  | cons rq xs ih => rw [List.cons_append, lastWritten_cons, lastWritten_cons, ih]

/-- The contents after the first request should be those from which the others go on. -/
theorem lastWritten_accepted_cons (dev : BlockDev) (rq : Request) (rqs : List Request) :
    lastWritten dev.data (accepted dev (rq :: rqs)) =
      lastWritten (rq.checked dev.size dev.data).data (accepted dev rqs) := by
  have hsplit : accepted dev (rq :: rqs) = accepted dev [rq] ++ accepted dev rqs := by
    rw [accepted, accepted, accepted, ← List.filter_append, List.singleton_append]
  rw [hsplit, lastWritten_append, rq.checked_data]

/-- What the requests should come to: each is served or refused by where it lies, and finds the
bytes that were written last by those that were served. -/
def ChecksAll (dev : BlockDev) (rqs : List Request) : Prop :=
  ∃ res, exec (serve Rd.deviceMakeRequest) dev rqs =
      some (res, { dev with data := lastWritten dev.data (accepted dev rqs) }) ∧
    res.length = rqs.length ∧ ∀ (i : ℕ) (rq : Request), rqs[i]? = some rq →
      res[i]? = some (rq.checked dev.size (lastWritten dev.data (accepted dev (rqs.take i))))

/-- **The fourth driver over all sequences of requests.** Every request is served if it lies within
the device and is refused without effect if it does not, if and only if the end of no request wraps
around.

Source: `m_modules/blk_dev/rd.c`, lines 21–65. -/
theorem Rd.checked_run_iff (dev : BlockDev) (rqs : List Request)
    (h : ∀ rq ∈ rqs, rq.total < 2 ^ 32) : ChecksAll dev rqs ↔ ∀ rq ∈ rqs, ¬ Wraps dev rq := by
  induction rqs generalizing dev with
  | nil =>
    refine iff_of_true ⟨[], rfl, rfl, fun i rq hrq => ?_⟩ fun rq hrq => absurd hrq List.not_mem_nil
    exact absurd hrq (by simp)
  | cons rq rqs ih =>
    have hiff : Rd.deviceMakeRequest dev rq = some (rq.checked dev.size dev.data) ↔
        ¬ Wraps dev rq := Rd.deviceMakeRequest_checked_iff (h rq List.mem_cons_self)
    have hrest := ih { dev with data := (rq.checked dev.size dev.data).data }
      fun rq' hrq' => h rq' (List.mem_cons_of_mem rq hrq')
    have hcontents : ∀ rqs', lastWritten dev.data (accepted dev (rq :: rqs')) =
        lastWritten (rq.checked dev.size dev.data).data (accepted dev rqs') :=
      lastWritten_accepted_cons dev rq
    rw [List.forall_mem_cons, ← hiff]
    constructor
    · rintro ⟨res, hrun, hlength, hres⟩
      obtain ⟨reply, dev', res', hserve, hrun', rfl⟩ := exec_cons_eq_some.mp hrun
      obtain ⟨served, hserved, heq⟩ := Option.map_eq_some_iff.mp hserve
      cases heq
      have hfirst := hres 0 rq rfl
      cases Option.some.inj hfirst
      refine ⟨hserved, hrest.mp ⟨res', ?_, Nat.succ.inj hlength, fun i rq' hrq' => ?_⟩⟩
      · rw [hcontents] at hrun'
        exact hrun'
      · have hlater := hres (i + 1) rq' hrq'
        rw [List.take_succ_cons, hcontents] at hlater
        exact hlater
    · rintro ⟨hserved, hall⟩
      obtain ⟨res, hrun, hlength, hres⟩ := hrest.mpr hall
      have hserve : serve Rd.deviceMakeRequest dev rq = some (rq.checked dev.size dev.data,
          { dev with data := (rq.checked dev.size dev.data).data }) := by
        rw [serve, hserved]
        rfl
      refine ⟨rq.checked dev.size dev.data :: res, ?_, congrArg Nat.succ hlength,
        fun i rq' hrq' => ?_⟩
      · rw [hcontents]
        exact exec_cons_eq_some.mpr ⟨_, _, res, hserve, hrun, rfl⟩
      · cases i with
        | zero =>
          cases hrq'
          rfl
        | succ i =>
          rw [List.take_succ_cons, hcontents]
          exact hres i rq' hrq'

/-- The first sector of a device with two sectors is read, and then the sector 2⁵⁵ written. -/
theorem Rd.checked_run_wrapping :
    ¬ ChecksAll ⟨2, fun _ => 0, by decide⟩
      [⟨0, false, [[0]], by decide, by decide⟩,
        ⟨2 ^ 55, true, [[1, 2], [3]], by decide, by decide⟩] := by
  refine (Rd.checked_run_iff _ _ fun rq hrq => ?_).not.mpr fun hnone => ?_
  · rcases List.mem_pair.mp hrq with rfl | rfl
    · decide
    · decide
  · exact hnone _ (List.mem_cons_of_mem _ List.mem_cons_self) (by decide)

end ExKernel.Blk
