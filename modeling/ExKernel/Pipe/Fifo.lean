import ExKernel.Lib.Transition
import ExKernel.Pipe.Device

/-!
# A scullpipe is a fifo

The device keeps its bytes in a ring buffer (`ExKernel.RingBuffer`) whose capacity is the recorded
buffer size. The two clamps of a transfer, by the amount of data or space and by the end of the
buffer, are exactly the conditions under which the ring buffer takes and puts a run of consecutive
cells. Each call therefore obeys a conservation law: the unread bytes before it followed by the
bytes it accepts are the bytes it delivers followed by the unread bytes after it. Along a run the
law adds up to the fifo property.

## Main definitions

* `Pipe.Transfer`: a read or write call, with `Pipe.Transfer.exec`.
* `Pipe.Regular`: the offsets lie in the buffer as the device records it.
* `Pipe.acceptedBytes`, `Pipe.deliveredBytes`: what the writes of a run accepted and its reads
  delivered.

## Main results

* `Pipe.Transfer.exec_cases`: the outcomes of a call.
* `Pipe.spacefree_eq`: `spacefree` counts the cells that are neither unread nor the one kept free.
* `Pipe.Transfer.exec_spec`: the conservation law of one call.
* `Pipe.exec_conserves`: the conservation law of a run.
* `Pipe.pipe_is_fifo`: a pipe loses, duplicates and reorders nothing.

## References

* `ldd/scull/pipe.c`, lines 121–229.
-/

namespace ExKernel.Pipe

open Transition

/-! ### Calls -/

/-- A call of `scull_p_read` or `scull_p_write`. -/
inductive Transfer
  | read (env : CallEnv) (count room : ℕ)
  | write (env : CallEnv) (count : ℕ) (src : UserBuffer)

namespace Transfer

/-- The reply of a call and the device after it. -/
def exec (dev : ScullPipe) : Transfer → Option (Reply × ScullPipe)
  | read env count room => scullPRead dev env count room
  | write env count src => scullPWrite dev env count src

/-- The bytes that a call delivered to the user. -/
def delivered : Transfer → Reply → List UInt8
  | read .., r => r.data
  | write .., _ => []

/-- The bytes that a call accepted from the user. -/
def accepted : Transfer → Reply → List UInt8
  | read .., _ => []
  | write .., r => r.data

/-- **What one call can do.** It returns or sleeps without touching the buffer; or it runs the
section of a read on a pipe with data; or that of a write on a pipe that is not full. -/
theorem exec_cases {dev dev' : ScullPipe} {t : Transfer} {r : Reply}
    (h : t.exec dev = some (r, dev')) :
    (dev' = dev ∧ r.data = [] ∧ r.len = 0) ∨
    (∃ env count room b, t = read env count room ∧ dev.rp ≠ dev.wp ∧ dev.buffer = some b ∧
      scullPReadLocked dev b count room = (r, dev')) ∨
    (∃ env count src b, t = write env count src ∧ spacefree dev ≠ 0 ∧ dev.buffer = some b ∧
      scullPWriteLocked dev b count src = (r, dev')) := by
  have hidle : ∀ env, (notReady env).data = [] ∧ (notReady env).len = 0 := by
    intro env
    simp only [notReady]
    split_ifs <;> exact ⟨rfl, rfl⟩
  cases t with
  | read env count room =>
    simp only [exec, scullPRead] at h
    split_ifs at h with hintr heq
    · cases h
      exact Or.inl ⟨rfl, rfl, rfl⟩
    · cases h
      exact Or.inl ⟨rfl, hidle env⟩
    · obtain ⟨b, hb, hread⟩ := Option.map_eq_some_iff.mp h
      exact Or.inr (Or.inl ⟨env, count, room, b, rfl, heq, hb, hread⟩)
  | write env count src =>
    simp only [exec, scullPWrite] at h
    split_ifs at h with hintr heq
    · cases h
      exact Or.inl ⟨rfl, rfl, rfl⟩
    · cases h
      exact Or.inl ⟨rfl, hidle env⟩
    · obtain ⟨b, hb, hwrite⟩ := Option.map_eq_some_iff.mp h
      exact Or.inr (Or.inr ⟨env, count, src, b, rfl, heq, hb, hwrite⟩)

theorem exec_isSome {dev : ScullPipe} (hb : dev.buffer.isSome) (t : Transfer) :
    ∃ r dev', t.exec dev = some (r, dev') := by
  obtain ⟨b, hb⟩ := Option.isSome_iff_exists.mp hb
  cases t with
  | read env count room =>
    simp only [exec, scullPRead, hb, Option.map_some]
    split_ifs <;> exact ⟨_, _, rfl⟩
  | write env count src =>
    simp only [exec, scullPWrite, hb, Option.map_some]
    split_ifs <;> exact ⟨_, _, rfl⟩

end Transfer

/-- The bytes delivered by the reads of a run, concatenated in order. -/
def deliveredBytes (calls : List Transfer) (replies : List Reply) : List UInt8 :=
  (List.zipWith Transfer.delivered calls replies).flatten

/-- The bytes accepted by the writes of a run, concatenated in order. -/
def acceptedBytes (calls : List Transfer) (replies : List Reply) : List UInt8 :=
  (List.zipWith Transfer.accepted calls replies).flatten

/-! ### Regular devices -/

/-- The recorded end belongs to the recorded size, and both pointers are offsets of cells, or the
buffer is empty and both are at its start. -/
structure Regular (dev : ScullPipe) : Prop where
  end_eq : dev.bufEnd = dev.buffersize.toInt
  place : (0 ≤ dev.rp ∧ dev.rp < dev.bufEnd ∧ 0 ≤ dev.wp ∧ dev.wp < dev.bufEnd) ∨
    (dev.bufEnd = 0 ∧ dev.rp = 0 ∧ dev.wp = 0)

namespace Regular

variable {dev : ScullPipe}

theorem inRange (h : Regular dev) (b : Block UInt8) (hne : dev.bufEnd ≠ 0) :
    (dev.ring b).InRange := by
  rcases h.place with ⟨h1, h2, h3, h4⟩ | ⟨h0, -, -⟩
  · exact ⟨h1, h2, h3, h4⟩
  · exact absurd h0 hne

theorem end_nonneg (h : Regular dev) : 0 ≤ dev.bufEnd := by
  rcases h.place with h | h <;> omega

theorem end_ne_zero (h : Regular dev) (hne : dev.rp ≠ dev.wp) : dev.bufEnd ≠ 0 := by
  rcases h.place with h | h <;> omega

end Regular

theorem regular_opened (dev : ScullPipe) {pBuffer : Int32} (mode : FMode) (b : Block UInt8)
    (h : 0 ≤ pBuffer.toInt) : Regular (dev.opened pBuffer mode b) where
  end_eq := rfl
  place := by
    rcases h.eq_or_lt with h | h
    · exact Or.inr ⟨h.symm, rfl, rfl⟩
    · exact Or.inl ⟨le_rfl, h, le_rfl, h⟩

theorem unread_opened (dev : ScullPipe) (pBuffer : Int32) (mode : FMode) (b : Block UInt8) :
    (dev.opened pBuffer mode b).unread = [] := by
  simp [ScullPipe.unread, ScullPipe.opened, ScullPipe.ring, RingBuffer.queue]

theorem unread_of_buffer {dev : ScullPipe} {b : Block UInt8} (hb : dev.buffer = some b) :
    dev.unread = (dev.ring b).queue := by
  simp [ScullPipe.unread, hb]

theorem unread_eq_nil_iff {dev : ScullPipe} (h : Regular dev) {b : Block UInt8}
    (hb : dev.buffer = some b) : dev.unread = [] ↔ dev.rp = dev.wp := by
  rw [unread_of_buffer hb]
  by_cases h0 : dev.bufEnd = 0
  · have : dev.rp = dev.wp := by
      rcases h.place with h | h <;> omega
    simp [RingBuffer.queue, ScullPipe.ring, this]
  · exact RingBuffer.queue_eq_nil_iff (h.inRange b h0)

/-! ### Free space -/

private theorem tmod_of_lt {x n : ℤ} (h : 0 ≤ x) (h' : x < n) : x.tmod n = x := by
  rw [Int.tmod_eq_emod_of_nonneg h, Int.emod_eq_of_lt h h']

private theorem tmod_of_ge {x n : ℤ} (h : n ≤ x) (h' : x < 2 * n) : x.tmod n = x - n := by
  rw [Int.tmod_eq_emod_of_nonneg (by omega), ← Int.sub_emod_right, Int.emod_eq_of_lt] <;> omega

theorem spacefree_eq_ite {dev : ScullPipe} (h : Regular dev) (h0 : dev.bufEnd ≠ 0) :
    spacefree dev = dev.bufEnd - 1 -
      (if dev.rp ≤ dev.wp then dev.wp - dev.rp else dev.bufEnd - dev.rp + dev.wp) := by
  have hr := h.inRange ⟨0, 0, fun _ => 0⟩ h0
  obtain ⟨h1, h2, h3, h4⟩ : 0 ≤ dev.rp ∧ dev.rp < dev.bufEnd ∧ 0 ≤ dev.wp ∧ dev.wp < dev.bufEnd :=
    ⟨hr.rp_nonneg, hr.rp_lt, hr.wp_nonneg, hr.wp_lt⟩
  have hmax := dev.buffersize.toInt_lt
  have hend := h.end_eq
  rw [spacefree]
  split_ifs with heq hle hle
  · rw [Int32.toInt_sub, Int.bmod_eq_of_le, hend] <;>
      simp only [Int32.reduceToInt] <;> omega
  · omega
  · rw [← hend, tmod_of_lt (by omega) (by omega), Int32.toInt_ofInt_of_le] <;> omega
  · rw [← hend, tmod_of_ge (by omega) (by omega), Int32.toInt_ofInt_of_le] <;> omega

/-- **Free space.** The unread bytes, the free space and the one cell that is kept free make up the
buffer. -/
theorem spacefree_eq {dev : ScullPipe} (h : Regular dev) (h0 : dev.bufEnd ≠ 0) {b : Block UInt8}
    (hb : dev.buffer = some b) : spacefree dev = dev.bufEnd - 1 - dev.unread.length := by
  rw [spacefree_eq_ite h h0, unread_of_buffer hb]
  split_ifs with hle
  · rw [RingBuffer.length_queue_of_le (by exact hle)]
    rfl
  · rw [RingBuffer.length_queue_of_lt (h.inRange b h0) (by exact not_le.mp hle)]
    rfl

theorem spacefree_nonneg {dev : ScullPipe} (h : Regular dev) (h0 : dev.bufEnd ≠ 0)
    {b : Block UInt8} (hb : dev.buffer = some b) : 0 ≤ spacefree dev := by
  have hlen : (dev.unread.length : ℤ) < dev.bufEnd := by
    rw [unread_of_buffer hb]
    exact RingBuffer.length_queue_lt (h.inRange b h0)
  have hsf := spacefree_eq h h0 hb
  omega

/-- An empty buffer has less than no space: the loop that waits for space does not see it as
full. -/
theorem spacefree_of_end_eq_zero {dev : ScullPipe} (h : Regular dev) (h0 : dev.bufEnd = 0) :
    spacefree dev = -1 := by
  have hN : dev.buffersize = 0 := by
    rw [← Int32.toInt_inj, ← h.end_eq, h0]
    rfl
  have heq : dev.rp = dev.wp := by
    rcases h.place with h | h <;> omega
  rw [spacefree, if_pos heq, hN]
  rfl

/-! ### The conservation law -/

/-- A read copies no more than is unread, and not past the end of the buffer. -/
theorem readCount_le {dev : ScullPipe} (h : Regular dev) {b : Block UInt8}
    (hb : dev.buffer = some b) (hne : dev.rp ≠ dev.wp) (count : ℕ) :
    readCount dev count ≤ dev.unread.length ∧
      dev.rp + (readCount dev count : ℤ) ≤ dev.bufEnd := by
  have hr := h.inRange b (h.end_ne_zero hne)
  have h2 : dev.rp < dev.bufEnd := hr.rp_lt
  have h3 : 0 ≤ dev.wp := hr.wp_nonneg
  have h4 : dev.wp < dev.bufEnd := hr.wp_lt
  rw [unread_of_buffer hb, readCount]
  split_ifs with hlt
  · have hlen : ((dev.ring b).queue.length : ℤ) = dev.wp - dev.rp :=
      RingBuffer.length_queue_of_le (by exact le_of_lt hlt)
    have := sizeT_le (x := dev.wp - dev.rp) (by omega)
    omega
  · have hlen : ((dev.ring b).queue.length : ℤ) = dev.bufEnd - dev.rp + dev.wp :=
      RingBuffer.length_queue_of_lt hr (show dev.wp < dev.rp by omega)
    have := sizeT_le (x := dev.bufEnd - dev.rp) (by omega)
    omega

/-- A write copies no more than fits beside the unread bytes, and not past the end of the buffer. -/
theorem writeCount_le {dev : ScullPipe} (h : Regular dev) (h0 : dev.bufEnd ≠ 0) {b : Block UInt8}
    (hb : dev.buffer = some b) (count : ℕ) :
    (dev.unread.length : ℤ) + writeCount dev count < dev.bufEnd ∧
      dev.wp + (writeCount dev count : ℤ) ≤ dev.bufEnd := by
  have hr := h.inRange b h0
  have h2 : dev.rp < dev.bufEnd := hr.rp_lt
  have h4 : dev.wp < dev.bufEnd := hr.wp_lt
  have hsf := spacefree_eq h h0 hb
  have hle := sizeT_le (spacefree_nonneg h h0 hb)
  rw [writeCount]
  split_ifs with hge
  · have := sizeT_le (x := dev.bufEnd - dev.wp) (by omega)
    omega
  · have := sizeT_le (x := dev.rp - dev.wp - 1) (by omega)
    omega

theorem writeCount_of_end_eq_zero {dev : ScullPipe} (h : Regular dev) (h0 : dev.bufEnd = 0)
    (count : ℕ) : writeCount dev count = 0 := by
  obtain ⟨hrp, hwp⟩ : dev.rp = 0 ∧ dev.wp = 0 := by
    rcases h.place with h | h <;> omega
  simp [writeCount, hrp, hwp, h0, sizeT]

/-- A call keeps the recorded size and the block of the buffer, only the contents may change. -/
structure SameBuffer (dev dev' : ScullPipe) : Prop where
  buffersize_eq : dev'.buffersize = dev.buffersize
  end_eq : dev'.bufEnd = dev.bufEnd
  nreaders_eq : dev'.nreaders = dev.nreaders
  nwriters_eq : dev'.nwriters = dev.nwriters
  block_eq : dev'.buffer.map (fun b => (b.id, b.size)) = dev.buffer.map fun b => (b.id, b.size)

theorem SameBuffer.refl (dev : ScullPipe) : SameBuffer dev dev := ⟨rfl, rfl, rfl, rfl, rfl⟩

theorem SameBuffer.trans {d e f : ScullPipe} (h : SameBuffer d e) (h' : SameBuffer e f) :
    SameBuffer d f :=
  ⟨h'.buffersize_eq.trans h.buffersize_eq, h'.end_eq.trans h.end_eq,
    h'.nreaders_eq.trans h.nreaders_eq, h'.nwriters_eq.trans h.nwriters_eq,
    h'.block_eq.trans h.block_eq⟩

/-- The section of `scull_p_read` takes the bytes that it delivers from the front of the queue. -/
theorem scullPReadLocked_spec {dev : ScullPipe} (h : Regular dev) {b : Block UInt8}
    (hb : dev.buffer = some b) (hne : dev.rp ≠ dev.wp) (count room : ℕ) :
    Regular (scullPReadLocked dev b count room).2 ∧
      SameBuffer dev (scullPReadLocked dev b count room).2 ∧
      dev.unread = (scullPReadLocked dev b count room).1.data ++
        (scullPReadLocked dev b count room).2.unread := by
  obtain ⟨hlen, hend⟩ := readCount_le h hb hne count
  have hr := h.inRange b (h.end_ne_zero hne)
  rw [scullPReadLocked, copyToUser]
  split_ifs with hroom
  · refine ⟨⟨h.end_eq, Or.inl ⟨RingBuffer.advance_nonneg hr.rp_nonneg,
      RingBuffer.advance_lt hr.rp_nonneg hr.rp_lt hend, hr.wp_nonneg, hr.wp_lt⟩⟩,
      ⟨rfl, rfl, rfl, rfl, rfl⟩, ?_⟩
    rw [unread_of_buffer hb] at hlen ⊢
    rw [unread_of_buffer (b := b) (by exact hb)]
    exact RingBuffer.queue_take hr hend hlen
  · exact ⟨h, .refl dev, rfl⟩

/-- The section of `scull_p_write` appends the bytes that it accepts to the queue; a copy that fails
half way has written only to the free part of the buffer. -/
theorem scullPWriteLocked_spec {dev : ScullPipe} (h : Regular dev) {b : Block UInt8}
    (hb : dev.buffer = some b) (count : ℕ) (src : UserBuffer) :
    Regular (scullPWriteLocked dev b count src).2 ∧
      SameBuffer dev (scullPWriteLocked dev b count src).2 ∧
      (scullPWriteLocked dev b count src).2.unread =
        dev.unread ++ (scullPWriteLocked dev b count src).1.data := by
  have hsame : ∀ cells wp, SameBuffer dev
      { dev with buffer := some { b with cells := cells }, wp := wp } := fun cells wp =>
    ⟨rfl, rfl, rfl, rfl, by simp [hb]⟩
  by_cases h0 : dev.bufEnd = 0
  · -- The empty buffer: nothing is copied and `wp` stays at the end, which is the start.
    have hcount := writeCount_of_end_eq_zero h h0 count
    have hwp : dev.wp = 0 := by
      rcases h.place with h | h <;> omega
    have hadv : RingBuffer.advance dev.bufEnd dev.wp 0 = dev.wp := by
      simp [RingBuffer.advance, h0, hwp]
    simp only [scullPWriteLocked, hcount, copyFromUser, Nat.zero_le, ite_true, List.take_zero,
      Cells.store_nil, hadv, List.append_nil]
    exact ⟨⟨h.end_eq, h.place⟩, hsame _ _, by simp [ScullPipe.unread, hb, ScullPipe.ring]⟩
  · have hr := h.inRange b h0
    obtain ⟨hroom, hend⟩ := writeCount_le h h0 hb count
    rw [unread_of_buffer hb] at hroom ⊢
    by_cases hcopy : writeCount dev count ≤ src.bytes.length
    · have hlen : (src.bytes.take (writeCount dev count)).length = writeCount dev count := by
        rw [List.length_take, min_eq_left hcopy]
      simp only [scullPWriteLocked, copyFromUser, hcopy, ite_true]
      refine ⟨⟨h.end_eq, Or.inl ⟨hr.rp_nonneg, hr.rp_lt, RingBuffer.advance_nonneg hr.wp_nonneg,
        RingBuffer.advance_lt hr.wp_nonneg hr.wp_lt hend⟩⟩, hsame _ _, ?_⟩
      rw [unread_of_buffer rfl]
      have hput := RingBuffer.queue_put hr (hlen.symm ▸ hroom :
        ((dev.ring b).queue.length : ℤ) + (src.bytes.take (writeCount dev count)).length <
          (dev.ring b).cap)
      rw [hlen] at hput
      exact hput
    · simp only [scullPWriteLocked, copyFromUser, hcopy, ite_false, Bool.false_eq_true,
        List.append_nil]
      refine ⟨⟨h.end_eq, h.place⟩, hsame _ _, ?_⟩
      rw [unread_of_buffer rfl]
      refine RingBuffer.queue_store hr (lt_of_le_of_lt ?_ hroom)
      have := List.length_take_le (writeCount dev count) (src.bytes ++ src.residue)
      omega

theorem buffer_isSome_of_sameBuffer {dev dev' : ScullPipe} (h : SameBuffer dev dev')
    (hb : dev.buffer.isSome) : dev'.buffer.isSome := by
  have := congrArg Option.isSome h.block_eq
  simpa [hb] using this

/-- **The conservation law of one call.** A call on a regular pipe keeps it regular, and the unread
bytes before it followed by those it accepts are those it delivers followed by the unread bytes
after it. -/
theorem Transfer.exec_spec {dev dev' : ScullPipe} (h : Regular dev) {t : Transfer} {r : Reply}
    (hexec : t.exec dev = some (r, dev')) :
    Regular dev' ∧ SameBuffer dev dev' ∧
      dev.unread ++ t.accepted r = t.delivered r ++ dev'.unread := by
  rcases exec_cases hexec with ⟨rfl, hdata, -⟩ | ⟨env, count, room, b, rfl, hne, hb, heq⟩ |
    ⟨env, count, src, b, rfl, -, hb, heq⟩
  · refine ⟨h, .refl dev', ?_⟩
    cases t <;> simp [accepted, delivered, hdata]
  · obtain ⟨hreg, hsame, hq⟩ := scullPReadLocked_spec h hb hne count room
    rw [heq] at hreg hsame hq
    exact ⟨hreg, hsame, (List.append_nil _).trans hq⟩
  · obtain ⟨hreg, hsame, hq⟩ := scullPWriteLocked_spec h hb count src
    rw [heq] at hreg hsame hq
    exact ⟨hreg, hsame, hq.symm⟩

theorem Transfer.data_of_error {dev dev' : ScullPipe} {t : Transfer} {r : Reply} {v : ℤ}
    (h : t.exec dev = some (r, dev')) (hr : r.ret = some v) (hv : v < 0) : r.data = [] := by
  rcases exec_cases h with ⟨-, hdata, -⟩ | ⟨_, count, room, b, -, -, -, heq⟩ |
    ⟨_, count, src, b, -, -, -, heq⟩
  · exact hdata
  · simp only [scullPReadLocked] at heq
    split at heq
    · cases heq
      rfl
    · cases heq
      have := Option.some.inj hr
      omega
  · simp only [scullPWriteLocked] at heq
    split_ifs at heq
    · cases heq
      have := Option.some.inj hr
      omega
    · cases heq
      rfl

/-- A call that returns an error leaves the unread bytes as they were. -/
theorem Transfer.unread_of_error {dev dev' : ScullPipe} (hreg : Regular dev) {t : Transfer}
    {r : Reply} {v : ℤ} (h : t.exec dev = some (r, dev')) (hr : r.ret = some v) (hv : v < 0) :
    dev'.unread = dev.unread := by
  obtain ⟨-, -, hq⟩ := exec_spec hreg h
  have hdata := data_of_error h hr hv
  cases t <;> simpa [accepted, delivered, hdata] using hq.symm

/-- **The conservation law of a run.** -/
theorem exec_conserves {dev : ScullPipe} (h : Regular dev) (hb : dev.buffer.isSome)
    (calls : List Transfer) :
    ∃ replies dev', Transition.exec Transfer.exec dev calls = some (replies, dev') ∧
      Regular dev' ∧ SameBuffer dev dev' ∧
      dev.unread ++ acceptedBytes calls replies = deliveredBytes calls replies ++ dev'.unread := by
  induction calls generalizing dev with
  | nil => exact ⟨[], dev, rfl, h, .refl dev, by simp [acceptedBytes, deliveredBytes]⟩
  | cons t calls ih =>
    obtain ⟨r, e, he⟩ := t.exec_isSome hb
    obtain ⟨hreg, hsame, hq⟩ := t.exec_spec h he
    obtain ⟨replies, dev', hrun, hreg', hsame', hq'⟩ :=
      ih hreg (buffer_isSome_of_sameBuffer hsame hb)
    refine ⟨r :: replies, dev', exec_cons_eq_some.mpr ⟨r, e, replies, he, hrun, rfl⟩, hreg',
      hsame.trans hsame', ?_⟩
    simp only [acceptedBytes, deliveredBytes, List.zipWith_cons_cons, List.flatten_cons] at hq' ⊢
    rw [← List.append_assoc, hq, List.append_assoc, List.append_assoc, hq']

/-- An open that succeeds leaves the device opened, with some buffer. -/
theorem exists_opened {N : Int32} {mode : FMode} {answer : Option (ℤ → UInt8)}
    {dev₀ dev : ScullPipe} {heap₀ heap : Ledger}
    (hopen : scullPOpenLocked N mode answer dev₀ heap₀ = (0, dev, heap)) :
    ∃ b, dev = dev₀.opened N mode b := by
  rcases scullPOpenLocked_cases N mode answer dev₀ heap₀ with ⟨-, h⟩ | ⟨b, -, h⟩ | ⟨c, -, -, -, h⟩
  · rw [hopen] at h
    cases h
  · rw [hopen] at h
    cases h
    exact ⟨_, rfl⟩
  · rw [hopen] at h
    cases h
    exact ⟨_, rfl⟩

/-- **A scullpipe is a fifo.** After an open with the buffer size `N ≥ 1`, and with no further open,
every sequence of read and write calls runs without getting stuck, and afterwards: both pointers are
offsets of cells; the bytes accepted by the writes are the bytes delivered by the reads followed by
the unread bytes; the free space is what the unread bytes and the one free cell leave; and a further
call that fails leaves the unread bytes as they are, however much a failing copy has already moved.

Source: `ldd/scull/pipe.c`, lines 121–229. -/
theorem pipe_is_fifo {N : Int32} (hN : 1 ≤ N.toInt) {mode : FMode} {answer : Option (ℤ → UInt8)}
    {dev₀ dev : ScullPipe} {heap₀ heap : Ledger}
    (hopen : scullPOpenLocked N mode answer dev₀ heap₀ = (0, dev, heap)) (calls : List Transfer) :
    ∃ replies dev', Transition.exec Transfer.exec dev calls = some (replies, dev') ∧
      0 ≤ dev'.rp ∧ dev'.rp < N.toInt ∧ 0 ≤ dev'.wp ∧ dev'.wp < N.toInt ∧
      acceptedBytes calls replies = deliveredBytes calls replies ++ dev'.unread ∧
      (dev'.unread.length : ℤ) = N.toInt - 1 - spacefree dev' ∧
      (dev'.unread.length : ℤ) ≤ N.toInt - 1 ∧
      ∀ (t : Transfer) (r : Reply) (dev'' : ScullPipe), t.exec dev' = some (r, dev'') →
        r.ret = some (-EAGAIN) ∨ r.ret = some (-ERESTARTSYS) ∨ r.ret = some (-EFAULT) →
        dev''.unread = dev'.unread := by
  obtain ⟨b, rfl⟩ := exists_opened hopen
  have hsome : (dev₀.opened N mode b).buffer.isSome := rfl
  obtain ⟨replies, dev', hrun, hreg, hsame, hq⟩ :=
    exec_conserves (regular_opened dev₀ mode b (by omega)) hsome calls
  have hend : dev'.bufEnd = N.toInt := hsame.end_eq
  have h0 : dev'.bufEnd ≠ 0 := by omega
  obtain ⟨b', hb'⟩ := Option.isSome_iff_exists.mp (buffer_isSome_of_sameBuffer hsame hsome)
  have hr := hreg.inRange b' h0
  have hsf := spacefree_eq hreg h0 hb'
  have hlen : (dev'.unread.length : ℤ) < dev'.bufEnd := by
    rw [unread_of_buffer hb']
    exact RingBuffer.length_queue_lt hr
  rw [unread_opened, List.nil_append] at hq
  refine ⟨replies, dev', hrun, hr.rp_nonneg, hend ▸ hr.rp_lt, hr.wp_nonneg, hend ▸ hr.wp_lt, hq,
    by omega, by omega, ?_⟩
  rintro t r dev'' ht (hret | hret | hret)
  all_goals
    exact t.unread_of_error hreg ht hret (by decide)

/-- A pipe of three bytes, opened for reading and writing, that is written, read and written
again. -/
theorem pipe_is_fifo_three :
    ∃ replies dev', Transition.exec Transfer.exec
        (ScullPipe.zero.opened 3 ⟨true, true⟩ ⟨0, 3, fun _ => 0⟩)
        [.write ⟨false, true, false⟩ 5 ⟨[1, 2, 3, 4, 5], []⟩, .read ⟨false, true, false⟩ 1 1,
          .write ⟨false, true, false⟩ 3 ⟨[3, 4, 5], []⟩] = some (replies, dev') ∧
      (dev'.unread.length : ℤ) = (3 : Int32).toInt - 1 - spacefree dev' := by
  have hopen : scullPOpenLocked 3 ⟨true, true⟩ (some fun _ => 0) .zero .empty =
      (0, ScullPipe.zero.opened 3 ⟨true, true⟩ ⟨0, 3, fun _ => 0⟩, Ledger.empty.alloc) := rfl
  obtain ⟨replies, dev', hrun, -, -, -, -, -, hlen, -⟩ := pipe_is_fifo (by decide) hopen
    [.write ⟨false, true, false⟩ 5 ⟨[1, 2, 3, 4, 5], []⟩, .read ⟨false, true, false⟩ 1 1,
      .write ⟨false, true, false⟩ 3 ⟨[3, 4, 5], []⟩]
  exact ⟨replies, dev', hrun, hlen⟩

end ExKernel.Pipe
