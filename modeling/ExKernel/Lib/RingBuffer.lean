import ExKernel.Lib.Cells

/-!
# Ring buffers

A ring buffer keeps a queue in `cap` cells between a read offset `rp` and a write offset `wp`, which
both run around the buffer. One cell is always left free, so that `rp = wp` means empty. Data enters
and leaves by copies of consecutive cells that stop at the end of the buffer; an offset that reaches
the end goes back to `0`.

## Main definitions

* `RingBuffer.queue`: the cells between `rp` and `wp`, cyclically, oldest first.
* `RingBuffer.InRange`: both offsets are offsets of cells.
* `RingBuffer.advance`: moving an offset, wrapping at the end.

## Main results

* `RingBuffer.queue_take`: advancing `rp` removes the cells passed from the front of the queue.
* `RingBuffer.queue_put`: copying cells to `wp` and advancing it appends them to the queue.
* `RingBuffer.queue_store`: a copy into the free part alone leaves the queue as it was.
-/

namespace ExKernel

/-- A ring buffer: the contents of memory from the start of the buffer, the number of its cells, and
the offsets of the next cell to read and to write. -/
structure RingBuffer (α : Type*) where
  cells : ℤ → α
  cap : ℤ
  rp : ℤ
  wp : ℤ

namespace RingBuffer

open Cells

variable {α : Type*} (r : RingBuffer α)

/-- The unread cells: from `rp` to `wp`, through the end of the buffer if `wp` has wrapped. -/
def queue : List α :=
  if r.rp ≤ r.wp then load r.cells r.rp (r.wp - r.rp).toNat
  else load r.cells r.rp (r.cap - r.rp).toNat ++ load r.cells 0 r.wp.toNat

/-- Both offsets are offsets of cells of the buffer. -/
structure InRange : Prop where
  rp_nonneg : 0 ≤ r.rp
  rp_lt : r.rp < r.cap
  wp_nonneg : 0 ≤ r.wp
  wp_lt : r.wp < r.cap

/-- The offset `n` cells after `x`, wrapping when it is the end of the buffer. -/
def advance (cap x : ℤ) (n : ℕ) : ℤ := if x + n = cap then 0 else x + n

theorem advance_nonneg {cap x : ℤ} {n : ℕ} (hx : 0 ≤ x) : 0 ≤ advance cap x n := by
  unfold advance
  split <;> omega

theorem advance_lt {cap x : ℤ} {n : ℕ} (hx : 0 ≤ x) (h : x < cap) (hn : x + n ≤ cap) :
    advance cap x n < cap := by
  unfold advance
  split <;> omega

variable {r}

theorem queue_of_le (h : r.rp ≤ r.wp) : r.queue = load r.cells r.rp (r.wp - r.rp).toNat := by
  simp [queue, h]

theorem queue_of_lt (h : r.wp < r.rp) :
    r.queue = load r.cells r.rp (r.cap - r.rp).toNat ++ load r.cells 0 r.wp.toNat := by
  simp [queue, not_le.mpr h]

theorem length_queue_of_le (h : r.rp ≤ r.wp) : (r.queue.length : ℤ) = r.wp - r.rp := by
  rw [queue_of_le h, length_load]
  omega

theorem length_queue_of_lt (hr : r.InRange) (h : r.wp < r.rp) :
    (r.queue.length : ℤ) = r.cap - r.rp + r.wp := by
  have := hr.rp_lt
  have := hr.wp_nonneg
  rw [queue_of_lt h, List.length_append, length_load, length_load]
  omega

theorem length_queue_lt (hr : r.InRange) : (r.queue.length : ℤ) < r.cap := by
  have := hr.rp_nonneg
  have := hr.wp_lt
  rcases le_or_gt r.rp r.wp with h | h
  · rw [length_queue_of_le h]
    omega
  · rw [length_queue_of_lt hr h]
    omega

theorem queue_eq_nil_iff (hr : r.InRange) : r.queue = [] ↔ r.rp = r.wp := by
  have := hr.rp_lt
  have := hr.wp_nonneg
  rw [← List.length_eq_zero_iff]
  rcases le_or_gt r.rp r.wp with h | h
  · have := length_queue_of_le h
    omega
  · have := length_queue_of_lt hr h
    omega

/-- Advancing the read offset over `n` cells, without passing `wp` or the end of the buffer, takes
these cells from the front of the queue. -/
theorem queue_take (hr : r.InRange) {n : ℕ} (hn : r.rp + n ≤ r.cap)
    (hlen : n ≤ r.queue.length) :
    r.queue = load r.cells r.rp n ++
      queue { r with rp := advance r.cap r.rp n } := by
  have := hr.wp_nonneg
  have := hr.wp_lt
  have := hr.rp_nonneg
  rcases le_or_gt r.rp r.wp with h | h
  · have hlen' := length_queue_of_le h
    have hadv : advance r.cap r.rp n = r.rp + n := by
      unfold advance
      split <;> omega
    rw [queue_of_le h, hadv, queue_of_le (by simp only; omega), ← load_add]
    simp only
    congr 1
    omega
  · by_cases hend : r.rp + n = r.cap
    · -- The read offset wraps: what is left is the part from the start of the buffer to `wp`.
      have hadv : advance r.cap r.rp n = 0 := by simp [advance, hend]
      rw [queue_of_lt h, hadv, queue_of_le (by simp only; omega),
        show (r.cap - r.rp).toNat = n by omega]
      simp
    · have hadv : advance r.cap r.rp n = r.rp + n := by simp [advance, hend]
      rw [queue_of_lt h, hadv, queue_of_lt (by simp only; omega), ← List.append_assoc, ← load_add]
      simp only
      congr 2
      omega

/-- Overwriting free cells from `wp` on does not change the queue. -/
theorem queue_store (hr : r.InRange) {xs : List α}
    (hroom : (r.queue.length : ℤ) + xs.length < r.cap) :
    queue { r with cells := store r.cells r.wp xs } = r.queue := by
  have := hr.rp_nonneg
  have := hr.wp_nonneg
  rcases le_or_gt r.rp r.wp with h | h
  · rw [queue_of_le h, queue_of_le (by exact h)]
    exact load_store_of_disjoint _ _ _ (Or.inl (by simp only; omega))
  · have hlen := length_queue_of_lt hr h
    rw [queue_of_lt h, queue_of_lt (by exact h)]
    congr 1
    · exact load_store_of_disjoint _ _ _ (Or.inr (by simp only; omega))
    · exact load_store_of_disjoint _ _ _ (Or.inl (by simp only; omega))

/-- Copying `xs` to the free cells from `wp` on and advancing the write offset over them appends
`xs` to the queue. -/
theorem queue_put (hr : r.InRange) {xs : List α}
    (hroom : (r.queue.length : ℤ) + xs.length < r.cap) :
    queue { r with
      cells := store r.cells r.wp xs
      wp := advance r.cap r.wp xs.length } = r.queue ++ xs := by
  have hkeep := queue_store hr hroom
  have := hr.rp_nonneg
  have := hr.rp_lt
  have := hr.wp_nonneg
  have hself := load_store_self r.cells r.wp xs
  rcases le_or_gt r.rp r.wp with h | h
  · have hlen := length_queue_of_le h
    rw [queue_of_le (by exact h)] at hkeep
    have hsplit : load (store r.cells r.wp xs) r.rp ((r.wp - r.rp).toNat + xs.length) =
        r.queue ++ xs := by
      rw [load_add, hkeep, show r.rp + ((r.wp - r.rp).toNat : ℤ) = r.wp by omega, hself]
    by_cases hwrap : r.wp + xs.length = r.cap
    · -- The write offset wraps to `0`, before `rp` because one cell stays free.
      have hadv : advance r.cap r.wp xs.length = 0 := by simp [advance, hwrap]
      rw [hadv, queue_of_lt (by simp only; omega), ← hsplit]
      simp only [Int.toNat_zero, load_zero, List.append_nil]
      congr 1
      omega
    · have hadv : advance r.cap r.wp xs.length = r.wp + xs.length := by simp [advance, hwrap]
      rw [hadv, queue_of_le (by simp only; omega), ← hsplit]
      simp only
      congr 1
      omega
  · have hlen := length_queue_of_lt hr h
    have hadv : advance r.cap r.wp xs.length = r.wp + xs.length := by
      unfold advance
      split <;> omega
    rw [queue_of_lt (by exact h)] at hkeep
    rw [hadv, queue_of_lt (by simp only; omega), ← hkeep, List.append_assoc]
    simp only
    congr 1
    rw [show (r.wp + (xs.length : ℤ)).toNat = r.wp.toNat + xs.length by omega, load_add]
    simp only [zero_add]
    rw [show ((r.wp.toNat : ℕ) : ℤ) = r.wp by omega, hself]

end RingBuffer

end ExKernel
